import ArchiveOs.Messages
import ArchiveOs.VolumeOps

-- Locals that are used without a value: i in pipe_read and pipe_write, n and i in
-- fs2_add_dir_entry. What they hold on entry decides what comes out, for every input.
namespace ArchiveOs
open Fs2 Kernel

section Locals
variable {pipe : Pipe} {src : Int → UInt8}

-- One turn is left of a loop that begins below nchars; the one before the first int is the last.
theorem toInt_before (w : UInt32) : toInt (w - 1) = toInt w - 1 ∨ toInt w < toInt (w - 1) := by
  have value := UInt32.toNat_sub w 1
  have one : (1 : UInt32).toNat = 1 := rfl
  have bound := w.toNat_lt
  unfold toInt
  rw [value,one]
  split <;> split <;> omega

theorem toInt_other (w : UInt32) : toInt w ≠ toInt (w - 1) := by
  rcases toInt_before w with less | more <;> omega

theorem pipeRead_done {nchars i : Int} (done : nchars ≤ i) : pipeRead pipe nchars i = (pipe,[],i) := by
  unfold pipeRead
  rw [Int.toNat_of_nonpos (by omega)]
  rfl

theorem pipeWrite_done {nchars i : Int} (done : nchars ≤ i) : pipeWrite pipe src nchars i = (pipe,i) := by
  unfold pipeWrite
  rw [Int.toNat_of_nonpos (by omega)]
  rfl

theorem pipeRead_differs (nchars : UInt32) :
    pipeRead pipe (toInt nchars) (toInt nchars) ≠ pipeRead pipe (toInt nchars) (toInt (nchars - 1)) := by
  intro same
  rw [pipeRead_done (le_refl _)] at same
  rcases toInt_before nchars with less | more
  · rw [less] at same
    unfold pipeRead at same
    have turn : toInt nchars - (toInt nchars - 1) = 1 := by omega
    rw [turn] at same
    change _ = pipeReadLoop 1 pipe _ at same
    unfold pipeReadLoop at same
    split at same
    · -- A byte has been stored.
      cases congrArg (fun r => r.2.1) same
    · have count := congrArg (fun r => r.2.2) same
      dsimp only at count
      omega
  · rw [pipeRead_done (le_of_lt more)] at same
    exact toInt_other nchars (congrArg (fun r => r.2.2) same)

theorem step_moves (i : Fin pipeSize) : i + 1 ≠ i := by
  intro same
  have value := congrArg Fin.val same
  have next := Cycle.step_cases i
  have size : pipeSize = 4096 := rfl
  omega

theorem pipeWrite_differs (nchars : UInt32) :
    pipeWrite pipe src (toInt nchars) (toInt nchars) ≠ pipeWrite pipe src (toInt nchars) (toInt (nchars - 1)) := by
  intro same
  rw [pipeWrite_done (le_refl _)] at same
  rcases toInt_before nchars with less | more
  · rw [less] at same
    unfold pipeWrite at same
    have turn : toInt nchars - (toInt nchars - 1) = 1 := by omega
    rw [turn] at same
    change _ = pipeWriteLoop src 1 pipe _ at same
    unfold pipeWriteLoop at same
    split at same
    · have count := congrArg Prod.snd same
      dsimp only at count
      omega
    · -- The writer has moved.
      exact step_moves pipe.writer (congrArg (fun r => r.1.writer) same).symm
  · rw [pipeWrite_done (le_of_lt more)] at same
    exact toInt_other nchars (congrArg Prod.snd same)

-- Behind the last slot the search stops at once: at 23 the directory counts as full, at 24
-- the region that is found goes behind the table.
theorem rows_behind (n : Inode) {i : Nat} (behind : 23 ≤ i) : n.rows.drop i = [] := by
  apply List.drop_eq_nil_of_le
  unfold Inode.rows
  rw [Vector.length_toList]
  exact behind

theorem addDirEntry_full (s : Mount) (name : List UInt8) (diindex ciindex n : UInt32) :
    addDirEntryFrom 23 n s name diindex ciindex = some (s.out .fileFull) := by
  unfold addDirEntryFrom
  dsimp only
  rw [rows_behind _ (le_refl 23)]
  exact if_pos rfl

theorem findFreeRegion_plain {s t : Mount} {rsz : UInt8} {daddr : UInt32}
    (run : findFreeRegion s rsz false = some (t,daddr)) : t.vol.outcome ≠ .fileFull := by
  have full : Outcome.diskFull ≠ .fileFull := by decide
  have fine : Outcome.success ≠ .fileFull := by decide
  unfold findFreeRegion at run
  split at run
  · cases run
  · dsimp only at run
    split at run
    · cases run
      exact full
    · cases run
      exact fine

theorem addDirEntry_behind {s t : Mount} {name : List UInt8} {diindex ciindex n : UInt32}
    (run : addDirEntryFrom 24 n s name diindex ciindex = some t) : t.vol.outcome ≠ .fileFull := by
  unfold addDirEntryFrom at run
  dsimp only at run
  rw [rows_behind _ (by decide)] at run
  obtain ⟨⟨u,daddr⟩,region,rest⟩ := Option.bind_eq_some_iff.mp run
  dsimp only at rest
  split at rest
  · cases rest
    exact findFreeRegion_plain region
  · cases rest

end Locals

-- On no input are the locals without effect.
theorem locals_never_ignored (pipe : Pipe) (src : Int → UInt8) (nchars : UInt32) (s : Mount) (name : List UInt8)
    (diindex ciindex : UInt32) :
    ¬ (∀ i i' : UInt32,pipeRead pipe (toInt nchars) (toInt i) = pipeRead pipe (toInt nchars) (toInt i')) ∧
    ¬ (∀ i i' : UInt32,pipeWrite pipe src (toInt nchars) (toInt i) = pipeWrite pipe src (toInt nchars) (toInt i')) ∧
    ¬ (∀ i i' n n' : UInt32,addDirEntryFrom i.toNat n s name diindex ciindex = addDirEntryFrom i'.toNat n' s name diindex ciindex) := by
  refine ⟨fun same => pipeRead_differs nchars (same _ _),fun same => pipeWrite_differs nchars (same _ _),fun same => ?_⟩
  have full := addDirEntry_full s name diindex ciindex 0
  exact addDirEntry_behind ((same 24 23 0 0).trans full) rfl

-- A read of five characters from an empty pipe returns 0 or 5.
theorem empty_read_returns : (pipeRead (pipeReset Post.blankPipe) 5 0).2.2 = 0 ∧
    (pipeRead (pipeReset Post.blankPipe) 5 5).2.2 = 5 := by
  decide +kernel

end ArchiveOs
