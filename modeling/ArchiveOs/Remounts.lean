import ArchiveOs.Finds
import ArchiveOs.Rooms
import ArchiveOs.Twins

-- A volume that is in use, and the same disk mounted afresh: lookups and reads cannot
-- tell one from the other.
namespace ArchiveOs.Fs2
open Extents Layout
namespace Mount

-- What a call tells its caller: the outcome and the results.
def told {α : Type} (r : Mount × α) : Outcome × α := (r.1.vol.outcome,r.2)

-- Two volumes that answer alike.
structure Agree (s s' : Mount) : Prop where
  findFile : ∀ path : Path,(Fs2.findFile s' path.bytes).map told = (Fs2.findFile s path.bytes).map told
  isftype : ∀ path ftype,(Fs2.isftype s' path ftype).map told = (Fs2.isftype s path ftype).map told
  read : ∀ path nbytes cursor,(Fs2.read s' path nbytes cursor).map told = (Fs2.read s path nbytes cursor).map told
  ls : ∀ path nchars,(Op.ls path nchars).Fits s → (Fs2.ls s' path nchars).map told = (Fs2.ls s path nchars).map told

section Agree
variable {s s' : Mount}

theorem findFile_told (v : s.Valid) (works : s.disk.Works) (path : Path) : ∃ t i p,Fs2.findFile s path.bytes = some (t,i,p) ∧
    match s.image.resolve path.bytes with
    | .ok (j,q) => i.toNat = j ∧ p.map UInt32.toNat = q ∧ t.vol.outcome = .success
    | .error e => i = minusOne ∧ p = none ∧ t.vol.outcome = e := by
  obtain ⟨t,i,p,run,_,_,result⟩ := findFile_look v works.sound path.bytes path.noNul
  refine ⟨t,i,p,run,?_⟩
  rcases result with ⟨_,found⟩ | ⟨_,faulty,_⟩
  · exact found
  · exact (Works.not_faulty works faulty).elim

namespace Alike

theorem findFile (alike : Alike s s') (path : Path) :
    (Fs2.findFile s' path.bytes).map told = (Fs2.findFile s path.bytes).map told := by
  obtain ⟨t,i,p,run,found⟩ := findFile_told alike.valid alike.works path
  obtain ⟨t',i',p',run',found'⟩ := findFile_told alike.valid' alike.works' path
  rw [alike.image] at found'
  have same : i' = i ∧ p' = p ∧ t'.vol.outcome = t.vol.outcome := by
    cases hit : s.image.resolve path.bytes with
    | error e =>
        rw [hit] at found found'
        exact ⟨found'.1.trans found.1.symm,found'.2.1.trans found.2.1.symm,found'.2.2.trans found.2.2.symm⟩
    | ok r =>
        obtain ⟨j,q⟩ := r
        rw [hit] at found found'
        refine ⟨UInt32.toNat_inj.mp (found'.1.trans found.1.symm),?_,found'.2.2.trans found.2.2.symm⟩
        exact Option.map_injective (fun _ _ => UInt32.toNat_inj.mp) (found'.2.1.trans found.2.1.symm)
  rw [run,run']
  simp [told,same.1,same.2.1,same.2.2]

theorem data (alike : Alike s s') {i : Nat} (h : i < s.image.nodes.length) (file : (s.image.node i).ftype ≠ ftypeDir) :
    s'.data i = s.data i := by
  unfold Mount.data
  rw [alike.image]
  congr 1
  unfold bytesOf
  refine List.flatMap_congr fun b member => ?_
  rw [alike.bytes b (.inl ⟨i,h,file,member⟩)]

theorem read_told (alike : Alike s s') (roomy : s.image.Roomy) (path : Path) (nbytes cursor : UInt32) :
    (Fs2.read s' path nbytes cursor).map told = (Fs2.read s path nbytes cursor).map told := by
  have enough : ∀ i q,s.image.resolve path.bytes = .ok (i,q) → (s.image.node i).ftype = ftypeFile →
      (s.image.node i).Enough := fun i q found file =>
    roomy i ((Image.resolve_attached alike.valid.good found).alive alike.valid.good).1 file
  obtain ⟨t,r,run,ended⟩ := read_look alike.valid alike.works.sound path nbytes cursor enough
  obtain ⟨t',r',run',ended'⟩ := read_look alike.valid' alike.works'.sound path nbytes cursor
    (by rw [alike.image]; exact enough)
  have view : s'.image.read s'.data path.bytes nbytes cursor = s.image.read s.data path.bytes nbytes cursor := by
    rw [alike.image]
    unfold Image.read
    cases found : s.image.resolve path.bytes with
    | error e => rfl
    | ok q =>
        obtain ⟨i,p⟩ := q
        dsimp only
        by_cases other : (s.image.node i).ftype ≠ ftypeFile
        · rw [if_pos other,if_pos other]
        · rw [if_neg other,if_neg other,alike.data ((Image.resolve_attached alike.valid.good found).alive alike.valid.good).1
            (by rw [not_not.mp other]; decide)]
  rw [run,run']
  rcases ended with ⟨_,_,result⟩ | halted
  · rcases ended' with ⟨_,_,result'⟩ | halted
    · exact congrArg some ((result'.trans view).trans result.symm)
    · exact (Works.not_faulty alike.works' halted.faulty).elim
  · exact (Works.not_faulty alike.works halted.faulty).elim

theorem agree (alike : Alike s s') (roomy : s.image.Roomy) : Agree s s' where
  findFile := alike.findFile
  isftype path ftype := by
    obtain ⟨t,r,run,_⟩ := isftype_look alike.valid alike.works.sound path ftype
    obtain ⟨t',run',outcome,_⟩ := alike.isftype run
    rw [run,run']
    simp [told,outcome]
  read := alike.read_told roomy
  ls path nchars fits := by
    obtain ⟨t,r,run,_⟩ := ls_look alike.valid alike.works.sound path nchars fits
    obtain ⟨t',run',outcome,_⟩ := alike.ls fits run
    rw [run,run']
    simp [told,outcome]

end Alike

end Agree

theorem remount_alike {s : Mount} (v : s.Valid) (works : s.disk.Works) {fresh : Volume} (base : fresh.blk0 = s.vol.blk0) :
    (loadVolume ⟨fresh,s.disk⟩).vol.outcome = .success ∧ Alike s (loadVolume ⟨fresh,s.disk⟩) := by
  obtain ⟨valid',same,success,_⟩ := @loadVolume_valid s v fresh base s.disk rfl (works.reads _ _)
  exact ⟨success,v,works,valid',Works.same works same,v.same_image valid' same,fun b _ => by rw [same.at_eq]⟩

theorem remounts_agree {s : Mount} (history : History Op.Roomy s) {fresh : Volume} (base : fresh.blk0 = s.vol.blk0) :
    (loadVolume ⟨fresh,s.disk⟩).vol.outcome = .success ∧ Agree s (loadVolume ⟨fresh,s.disk⟩) := by
  obtain ⟨v,works⟩ := history.valid
  obtain ⟨success,alike⟩ := remount_alike v works base
  exact ⟨success,alike.agree history.roomy⟩

-- A new file with five bytes.
theorem remounts_agree_filed : ∃ s : Mount,History Op.Roomy s ∧ Agree s (loadVolume ⟨s.vol,s.disk⟩) := by
  obtain ⟨s,formatted,image⟩ := formats 3 passes_boot (by decide)
  have fits : Op.Fits s (.create ftypeFile fileAb) := trivial
  obtain ⟨t,_,history,after⟩ := (History.format formatted : History Op.Roomy s).next fits trivial
  have fits' : Op.Fits t (.write fileAb (fun _ => 0) 5 0) := trivial
  have inside : Op.Roomy t (.write fileAb (fun _ => 0) 5 0) := ⟨by decide,fun _ _ _ _ => Nat.zero_le _⟩
  obtain ⟨u,_,history',_⟩ := history.next fits' inside
  exact ⟨u,history',(remounts_agree history' rfl).2⟩

end Mount
end ArchiveOs.Fs2
