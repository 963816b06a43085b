import ArchiveOs.Readings

-- What the permissions of a file come to: fs2_read and fs2_write compare the mask with
-- zero first, so they never refuse anything.
namespace ArchiveOs.Fs2
open Extents Layout

namespace Mount

-- The inode that a path leads to, as fs2_read and fs2_write look for it.
def seek (s : Mount) (path : Path) : Option (Except Outcome Inode) := do
  let (s,i,_) ← findFile s path.bytes
  if s.vol.outcome ≠ .success then some (.error s.vol.outcome)
  else
    let s ← getIblockC s (i / 32) false false
    if s.vol.outcome ≠ .success then some (.error s.vol.outcome) else some (.ok (s.cached i))

-- A file that the path leads to and that lacks one of the permissions.
def Lacks (s : Mount) (path : Path) (mask : UInt8) : Prop :=
  ∃ inode,s.seek path = some (.ok inode) ∧ inode.ftype = ftypeFile ∧ inode.fperm &&& mask = 0

-- What the permissions ask for.
def ReadDenied (s : Mount) (path : Path) (nbytes cursor : UInt32) : Prop :=
  s.Lacks path uRead → ∃ s',read s path nbytes cursor = some (s',-1,[]) ∧ s'.vol.outcome = .badPermissions

def WriteDenied (s : Mount) (path : Path) (src : Nat → UInt8) (nbytes cursor : UInt32) : Prop :=
  s.Lacks path uWrite → ∃ s',write s path src nbytes cursor = some (s',-1) ∧ s'.vol.outcome = .badPermissions ∧
    s'.disk.blk = s.disk.blk ∧ s'.seek path = s.seek path

-- Every path leads to the same inode, and the files with FS2_U_READ have the same contents.
structure DifferHidden (s s' : Mount) : Prop where
  seek : ∀ path,s'.seek path = s.seek path
  files : ∀ path inode,s.seek path = some (.ok inode) → inode.ftype = ftypeFile → s.Readable inode ∧ s'.Readable inode
  shown : ∀ path inode,s.seek path = some (.ok inode) → inode.ftype = ftypeFile → inode.fperm &&& uRead ≠ 0 →
    s'.contents inode = s.contents inode

-- The outcome, the count and what is stored at `out`.
def Indistinguishable (s s' : Mount) : Prop :=
  ∀ path nbytes cursor,(read s' path nbytes cursor).map (fun r => (r.1.vol.outcome,r.2)) =
    (read s path nbytes cursor).map fun r => (r.1.vol.outcome,r.2)

section Seek
variable {s t : Mount} {path : Path} {i : UInt32} {inode : Inode}

theorem seek_ok : s.seek path = some (.ok inode) ↔ ∃ t i,s.Leading path t i ∧ t.cached i = inode := by
  unfold seek Leading
  cases findFile s path.bytes with
  | none => exact ⟨fun wrong => (nomatch wrong),fun ⟨_,_,⟨_,_,wrong,_⟩,_⟩ => (nomatch wrong)⟩
  | some r =>
      obtain ⟨u,i,p⟩ := r
      simp only [Option.bind_eq_bind,Option.bind_some]
      by_cases failed : u.vol.outcome ≠ .success
      · rw [if_pos failed]
        constructor
        · intro wrong
          cases wrong
        · rintro ⟨_,_,⟨_,_,same,success,_⟩,_⟩
          cases same
          exact (failed success).elim
      · rw [if_neg failed]
        cases load : getIblockC u (i / 32) false false with
        | none =>
            constructor
            · intro wrong
              cases wrong
            · rintro ⟨_,_,⟨_,_,same,_,loaded,_⟩,_⟩
              cases same
              rw [load] at loaded
              cases loaded
        | some t =>
            simp only [Option.bind_some]
            by_cases failed' : t.vol.outcome ≠ .success
            · rw [if_pos failed']
              constructor
              · intro wrong
                cases wrong
              · rintro ⟨_,_,⟨_,_,same,_,loaded,success⟩,_⟩
                cases same
                rw [load] at loaded
                cases loaded
                exact (failed' success).elim
            · rw [if_neg failed']
              constructor
              · intro same
                cases same
                exact ⟨t,i,⟨u,p,rfl,not_not.mp failed,load,not_not.mp failed'⟩,rfl⟩
              · rintro ⟨_,_,⟨_,_,same,_,loaded,_⟩,rfl⟩
                cases same
                rw [load] at loaded
                cases loaded
                rfl

theorem read_seek (s : Mount) (path : Path) (nbytes cursor : UInt32) :
    (read s path nbytes cursor).map (fun r => (r.1.vol.outcome,r.2)) =
      (s.seek path).bind fun
        | .error e => some (e,-1,[])
        | .ok inode =>
          if inode.ftype ≠ ftypeFile then some (.badFtype,-1,[])
          else (read s path nbytes cursor).map fun r => (r.1.vol.outcome,r.2) := by
  rw [read_eq]
  unfold seek
  cases findFile s path.bytes with
  | none => rfl
  | some r =>
      obtain ⟨u,i,p⟩ := r
      simp only [Option.bind_eq_bind,Option.bind_some]
      by_cases failed : u.vol.outcome ≠ .success
      · rw [if_pos failed,if_pos failed]
        rfl
      · rw [if_neg failed,if_neg failed]
        cases load : getIblockC u (i / 32) false false with
        | none => rfl
        | some t =>
            simp only [Option.bind_some]
            by_cases failed' : t.vol.outcome ≠ .success
            · rw [if_pos failed',if_pos failed']
              rfl
            · rw [if_neg failed',if_neg failed']
              by_cases dir : (t.cached i).ftype ≠ ftypeFile
              · simp only [Option.bind_some]
                rw [if_pos dir,if_pos dir]
                rfl
              · simp only [Option.bind_some]
                rw [if_neg dir,if_neg dir]

theorem loadGpC_outcome (s : Mount) (a : UInt32) :
    (loadGpC s a false).vol.outcome = .success ∨ (loadGpC s a false).vol.outcome = .diskRdErr := by
  unfold loadGpC
  split
  · rw [if_neg Bool.false_ne_true]
    split
    · exact .inr rfl
    · exact .inl rfl
  · exact .inl rfl

theorem loadGpC_granted (s : Mount) (a : UInt32) : (loadGpC s a false).vol.outcome ≠ .badPermissions := by
  rcases loadGpC_outcome s a with same | same <;> rw [same] <;> decide

theorem readLoop_granted (inode : Inode) (n : Nat) {t : Mount} (blkind rcount : Nat) (out : List UInt8)
    (granted : t.vol.outcome ≠ .badPermissions) :
    (readLoop inode n t blkind rcount out).1.vol.outcome ≠ .badPermissions := by
  induction n generalizing t blkind rcount out with
  | zero => exact granted
  | succ n ih =>
      unfold readLoop
      dsimp only
      split
      · exact granted
      · split
        · exact loadGpC_granted _ _
        · exact ih _ _ _ (loadGpC_granted _ _)

theorem readFile_granted (inode : Inode) (nbytes cursor : UInt32) (granted : t.vol.outcome ≠ .badPermissions) :
    (readFile t inode nbytes cursor).1.vol.outcome ≠ .badPermissions := by
  have first := loadGpC_granted t (inode.blk (cursor.toNat / blockSz))
  unfold readFile
  dsimp only
  split
  · exact granted
  split
  · exact granted
  split
  · exact first
  split
  · exact first
  split
  · exact readLoop_granted _ _ _ _ _ first
  split
  · exact loadGpC_granted _ _
  · exact loadGpC_granted _ _

theorem read_denied_iff (s : Mount) (path : Path) (nbytes cursor : UInt32) :
    s.ReadDenied path nbytes cursor ↔ ¬ s.Lacks path uRead := by
  constructor
  · rintro denied lacks
    obtain ⟨s',run,outcome⟩ := denied lacks
    obtain ⟨inode,found,file,_⟩ := lacks
    obtain ⟨t,i,leading,rfl⟩ := seek_ok.mp found
    rw [leading.read file] at run
    have granted := readFile_granted (t := t) (t.cached i) nbytes cursor (by rw [leading.success]; decide)
    rw [Option.some.inj run] at granted
    exact granted outcome
  · intro never lacks
    exact (never lacks).elim

theorem writeFile_count {x : UInt32} {src : Nat → UInt8} {nbytes cursor : UInt32} {t' : Mount} {r : Int}
    (run : writeFile t x src nbytes cursor = some (t',r)) : 0 ≤ r := by
  unfold writeFile at run
  simp only [Option.bind_eq_bind,Option.bind_eq_some_iff] at run
  obtain ⟨⟨t₁,b₁⟩,_,run⟩ := run
  have counts : ∀ {u : Mount} {n : Nat},some (finishWrite u x cursor n) = some (t',r) → 0 ≤ r := by
    intro u n same
    cases same
    exact Int.natCast_nonneg n
  split at run
  · cases run
    exact Int.le_refl 0
  split at run
  · cases run
    exact Int.le_refl 0
  split at run
  · cases run
    exact Int.le_refl 0
  obtain ⟨⟨t₂,blkind,wcount,stopped⟩,_,run⟩ := Option.bind_eq_some_iff.mp run
  dsimp only at run
  split at run
  · exact counts run
  obtain ⟨⟨t₃,b₃⟩,_,run⟩ := Option.bind_eq_some_iff.mp run
  dsimp only at run
  split at run
  · exact counts run
  · exact counts run

theorem write_denied_iff (s : Mount) (path : Path) (src : Nat → UInt8) (nbytes cursor : UInt32) :
    s.WriteDenied path src nbytes cursor ↔ ¬ s.Lacks path uWrite := by
  constructor
  · rintro denied lacks
    obtain ⟨s',run,_⟩ := denied lacks
    obtain ⟨inode,found,file,_⟩ := lacks
    obtain ⟨t,i,leading,rfl⟩ := seek_ok.mp found
    rw [leading.write file] at run
    have count := writeFile_count run
    exact (by decide : ¬ (0 : Int) ≤ -1) count
  · intro never lacks
    exact (never lacks).elim

theorem read_contents (works : s.disk.Works) (found : s.seek path = some (.ok inode)) (file : inode.ftype = ftypeFile)
    (readable : s.Readable inode) (nbytes cursor : UInt32) :
    (read s path nbytes cursor).map (fun r => (r.1.vol.outcome,r.2)) =
      some (.success,((((s.contents inode).drop cursor.toNat).take nbytes.toNat).length : Int),
        ((s.contents inode).drop cursor.toNat).take nbytes.toNat) := by
  obtain ⟨t,i,leading,rfl⟩ := seek_ok.mp found
  obtain ⟨s',n,out,run,success,copied⟩ := reads_bytes works leading file readable nbytes cursor
  rw [run,Option.map_some,success,copied.stored,copied.bytes]

-- Two volumes are told apart exactly by the contents of the files that a path leads to.
theorem indistinguishable_iff {s' : Mount} (works : s.disk.Works) (works' : s'.disk.Works) (differ : DifferHidden s s') :
    Indistinguishable s s' ↔ ∀ path inode,s.seek path = some (.ok inode) → inode.ftype = ftypeFile →
      s'.contents inode = s.contents inode := by
  constructor
  · intro alike path inode found file
    obtain ⟨readable,readable'⟩ := differ.files path inode found file
    have same := alike path inode.eof 0
    rw [read_contents works found file readable,
      read_contents works' ((differ.seek path).trans found) file readable'] at same
    have bytes := congrArg Prod.snd (congrArg Prod.snd (Option.some.inj same))
    dsimp only at bytes
    rw [show (0 : UInt32).toNat = 0 from rfl,List.drop_zero,List.drop_zero,← readable.length,List.take_length] at bytes
    rw [← bytes,readable.length,← readable'.length,List.take_length]
  · intro contents path nbytes cursor
    rw [read_seek s',read_seek s,differ.seek path]
    cases found : s.seek path with
    | none => rfl
    | some r =>
        cases r with
        | error e => rfl
        | ok inode =>
            simp only [Option.bind_some]
            by_cases dir : inode.ftype ≠ ftypeFile
            · rw [if_pos dir,if_pos dir]
            · rw [if_neg dir,if_neg dir]
              have file := not_not.mp dir
              obtain ⟨readable,readable'⟩ := differ.files path inode found file
              rw [read_contents works found file readable,
                read_contents works' ((differ.seek path).trans found) file readable',contents path inode found file]

end Seek

-- When permissions are enforced: on no file that lacks one, and two volumes are not told
-- apart exactly when they have the same contents in every file that a path leads to.
theorem permissions_enforced_iff (s : Mount) (path : Path) (src : Nat → UInt8) (nbytes cursor : UInt32) :
    (s.ReadDenied path nbytes cursor ↔ ¬ s.Lacks path uRead) ∧
    (s.WriteDenied path src nbytes cursor ↔ ¬ s.Lacks path uWrite) ∧
    ∀ s' : Mount,s.disk.Works → s'.disk.Works → DifferHidden s s' →
      (Indistinguishable s s' ↔ ∀ path inode,s.seek path = some (.ok inode) → inode.ftype = ftypeFile →
        s'.contents inode = s.contents inode) :=
  ⟨read_denied_iff s path nbytes cursor,write_denied_iff s path src nbytes cursor,
    fun _ works works' differ => indistinguishable_iff works works' differ⟩

-- A file without any permission, and two disks that hold it.
def lockedInode : Inode := {shortInode with fperm := 0}
def lockedVolume : Volume := {shortVolume with icache := Vector.replicate 32 lockedInode}
def onesDisk : Disk := {zeroDisk with blk := fun _ => Vector.replicate 4096 1}

theorem onesDisk_works : onesDisk.Works := ⟨fun _ _ => rfl,fun _ _ => rfl⟩

theorem locked_cached (d : Disk) (o : Outcome) (i : UInt32) :
    ((⟨lockedVolume,d⟩ : Mount).out o).cached i = lockedInode := Vector.getElem_replicate _

theorem locked_seek (d : Disk) (path : Path) : (⟨lockedVolume,d⟩ : Mount).seek path =
    if path.bytes = [] then some (.ok lockedInode)
    else if (path.bytes.takeWhile (· ≠ slash)).length > 28 then some (.error .invalidPath)
    else some (.error .badFtype) := by
  have block : ∀ o,getIblockC ((⟨lockedVolume,d⟩ : Mount).out o) 0 false false =
      some ((⟨lockedVolume,d⟩ : Mount).out .success) := fun _ => rfl
  unfold seek findFile
  by_cases empty : path.bytes = []
  · rw [if_pos empty,if_pos empty]
    exact congrArg (fun n => some (Except.ok n)) (locked_cached d .success 0)
  · rw [if_neg empty,if_neg empty]
    have first : getIblockC (⟨lockedVolume,d⟩ : Mount) 0 false false = some ((⟨lockedVolume,d⟩ : Mount).out .success) := rfl
    rw [first]
    simp only [Option.bind_eq_bind,Option.bind_some]
    rw [findFileLoop]
    by_cases long : (path.bytes.takeWhile (· ≠ slash)).length > 28
    · rw [if_pos long,if_pos long]
      rfl
    · rw [if_neg long,if_neg long]
      have look : findInDirR ((⟨lockedVolume,d⟩ : Mount).out .success) 0 path.bytes
          (path.bytes.takeWhile (· ≠ slash)).length =
          some (((⟨lockedVolume,d⟩ : Mount).out .success).out .badFtype,minusOne) := by
        unfold findInDirR
        rw [show (0 : UInt32) / 32 = 0 from rfl,block]
        simp only [Option.bind_eq_bind,Option.bind_some]
        rw [if_neg (by simp),locked_cached,if_pos (by decide)]
      rw [look]
      dsimp only
      rw [if_pos rfl]
      rfl

theorem locked_lacks (d : Disk) (mask : UInt8) : (⟨lockedVolume,d⟩ : Mount).Lacks emptyPath mask := by
  refine ⟨lockedInode,?_,rfl,UInt8.zero_and⟩
  rw [locked_seek]
  exact if_pos rfl

theorem locked_readable (d : Disk) : (⟨lockedVolume,d⟩ : Mount).Readable lockedInode := by
  have regs : blocks lockedInode.regs = [1] := shortInode_blocks
  refine ⟨by decide +kernel,by decide,?_,?_⟩
  · rw [regs]
    decide
  · rw [regs]
    intro b member here
    cases List.mem_singleton.mp member
    cases here

theorem locked_differ : DifferHidden ⟨lockedVolume,zeroDisk⟩ ⟨lockedVolume,onesDisk⟩ := by
  have only : ∀ path inode,(⟨lockedVolume,zeroDisk⟩ : Mount).seek path = some (.ok inode) → inode = lockedInode := by
    intro path inode found
    rw [locked_seek] at found
    split at found
    · cases found
      rfl
    · split at found <;> cases found
  refine ⟨fun path => by rw [locked_seek,locked_seek],?_,?_⟩
  · intro path inode found _
    rw [only path inode found]
    exact ⟨locked_readable _,locked_readable _⟩
  · intro path inode found _ permitted
    rw [only path inode found] at permitted
    exact (permitted UInt8.zero_and).elim

theorem locked_contents : (⟨lockedVolume,onesDisk⟩ : Mount).contents lockedInode ≠
    (⟨lockedVolume,zeroDisk⟩ : Mount).contents lockedInode := by
  have regs : blocks lockedInode.regs = [1] := shortInode_blocks
  unfold contents
  rw [regs]
  decide +kernel

theorem permissions_ignored :
    ¬ (⟨lockedVolume,zeroDisk⟩ : Mount).ReadDenied emptyPath 5 0 ∧
    ¬ (⟨lockedVolume,zeroDisk⟩ : Mount).WriteDenied emptyPath (fun _ => 1) 5 0 ∧
    zeroDisk.Works ∧ onesDisk.Works ∧ DifferHidden ⟨lockedVolume,zeroDisk⟩ ⟨lockedVolume,onesDisk⟩ ∧
    ¬ Indistinguishable ⟨lockedVolume,zeroDisk⟩ ⟨lockedVolume,onesDisk⟩ := by
  refine ⟨fun denied => (read_denied_iff _ _ _ _).mp denied (locked_lacks _ _),
    fun denied => (write_denied_iff _ _ _ _ _).mp denied (locked_lacks _ _),zeroDisk_works,onesDisk_works,locked_differ,?_⟩
  intro alike
  have contents := (indistinguishable_iff zeroDisk_works onesDisk_works locked_differ).mp alike emptyPath lockedInode
    ((locked_seek _ _).trans (if_pos rfl)) rfl
  exact locked_contents contents

theorem permissions_enforced_locked :
    Indistinguishable ⟨lockedVolume,zeroDisk⟩ ⟨lockedVolume,onesDisk⟩ ↔ ∀ path inode,
      (⟨lockedVolume,zeroDisk⟩ : Mount).seek path = some (.ok inode) → inode.ftype = ftypeFile →
        (⟨lockedVolume,onesDisk⟩ : Mount).contents inode = (⟨lockedVolume,zeroDisk⟩ : Mount).contents inode :=
  (permissions_enforced_iff _ emptyPath (fun _ => 1) 5 0).2.2 _ zeroDisk_works onesDisk_works locked_differ

end Mount
end ArchiveOs.Fs2
