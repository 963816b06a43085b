import ArchiveOs.Histories
import ArchiveOs.Removes

-- Runs in which files and directories are also removed, and what fs2_unlink does to
-- the entries of a directory in them.
namespace ArchiveOs.Fs2
open Extents Layout

inductive Deed where
  | plain (op : Op)
  | rm (path : Path)

def Deed.exec (s : Mount) : Deed → Option Mount
  | .plain op => op.exec s
  | .rm path => (Fs2.rm s path).map Prod.fst

def Deed.Fits (s : Mount) : Deed → Prop
  | .plain op => op.Fits s
  | .rm _ => True

namespace Mount

inductive Trail (admits : Mount → Deed → Prop) : Mount → Prop where
  | format {s : Mount} : s.Formatted → Trail admits s
  | step {s s' : Mount} {deed : Deed} : Trail admits s → deed.Fits s → admits s deed → deed.exec s = some s' →
      Trail admits s'

-- A remove that leaves the volume in order: its path does not end at a directory
-- itself, the entry is where fs2_unlink looks for it, and the entry that takes its place
-- is not fetched from an outdated block.
structure Clear (s : Mount) (path : List UInt8) : Prop where
  apart : s.image.Apart path
  reach : ∀ x p K,s.image.Victim path x p K → K % 128 < 32
  fresh : ∀ x p K,s.image.Victim path x p K → s.Fresh p K

def Careful (s : Mount) : Deed → Prop
  | .plain _ => True
  | .rm path => s.Clear path.bytes

-- How a remove ends on a disk that works.
inductive Cleared (s s' : Mount) (path : List UInt8) : Bool → Prop where
  | removed {x p K : Nat} (victim : s.image.Victim path x p K) (removed : Removed s s' x p K) : Cleared s s' path true
  | refused (looked : Looked s s') (outcome : s'.vol.outcome ≠ .success) (why : ∀ x q,s.image.resolve path = .ok (x,q) →
      x = 0 ∨ ((s.image.node x).ftype = ftypeDir ∧ 2 < (s.image.node x).eof)) : Cleared s s' path false

section Step
variable {s s' : Mount}

theorem Works.quiet (works : s.disk.Works) {t : Mount} (same : Same s t) : t.disk.Quiet := by
  intro n x _
  rw [same.rdFails]
  exact works.reads n x

theorem rmLookups_same (v : s.Valid) (sound : s.disk.Sound) {path : Path} {t : Mount} {x : UInt32}
    (run : rmLookups s path.bytes = some (t,x)) : Same s t := by
  obtain ⟨s₁,y,q,found,result⟩ := findInode_look v sound path
  unfold rmLookups at run
  simp only [found,Option.bind_eq_bind,Option.bind_some] at run
  cases resolved : s.image.resolve path.bytes with
  | error e =>
    rw [resolved] at result
    rcases result with ⟨looked,_,outcome,plain⟩ | stopped
    · rw [if_pos (by rw [outcome]; exact plain)] at run
      cases run
      exact looked.toSame
    · rw [if_pos (by rw [stopped.outcome]; decide)] at run
      cases run
      exact stopped.toLooked.toSame
  | ok r =>
    rw [resolved] at result
    rcases result with ⟨fine,_,_,_,_,_,s₂,run₂,looked,_⟩ | stopped
    · rw [if_neg (by simp [fine]),run₂] at run
      cases run
      exact looked.toSame
    · rw [if_pos (by rw [stopped.outcome]; decide)] at run
      cases run
      exact stopped.toLooked.toSame

theorem rm_clear (v : s.Valid) (works : s.disk.Works) (path : Path) (clear : s.Clear path.bytes) :
    ∃ s' r,rm s path = some (s',r) ∧ Cleared s s' path.bytes r := by
  obtain ⟨s',r,run,ended⟩ := rm_spec v works.sound path clear.apart clear.fresh fun t x found _ _ =>
    Works.quiet works (rmLookups_same v works.sound found)
  refine ⟨s',r,run,?_⟩
  cases ended with
  | removed victim _ removed => exact .removed victim removed
  | lost victim later => exact absurd (clear.reach _ _ _ victim) later
  | refused looked _ _ error why => exact .refused looked error.1 why
  | halted halted => exact (Works.not_faulty works halted.faulty).elim

theorem Cleared.valid (works : s.disk.Works) {path : List UInt8} {r : Bool} (a : Cleared s s' path r) :
    s'.Valid ∧ s'.disk.Works := by
  cases a with
  | removed _ removed => exact ⟨removed.valid,Works.dev works removed.toDev⟩
  | refused looked => exact ⟨looked.valid,Works.same works looked.toSame⟩

theorem deed_valid (v : s.Valid) (works : s.disk.Works) {deed : Deed} (fits : deed.Fits s) (careful : s.Careful deed)
    (run : deed.exec s = some s') : s'.Valid ∧ s'.disk.Works := by
  cases deed with
  | plain op =>
      obtain ⟨t,run',valid,works',_⟩ := exec_spec v works fits
      cases run.symm.trans run'
      exact ⟨valid,works'⟩
  | rm path =>
      obtain ⟨t,r,run',cleared⟩ := rm_clear v works path careful
      have same := congrArg (Option.map Prod.fst) run'
      cases run.symm.trans same
      exact cleared.valid works

end Step

theorem Trail.valid {s : Mount} (trail : Trail Careful s) : s.Valid ∧ s.disk.Works := by
  induction trail with
  | format formatted => exact formatted.valid
  | step _ fits careful run ih => exact deed_valid ih.1 ih.2 fits careful run

theorem History.trail {s : Mount} (history : History AnyOp s) : Trail Careful s := by
  induction history with
  | format formatted => exact .format formatted
  | step _ fits _ run ih => exact @Trail.step _ _ _ (.plain _) ih fits trivial run

end Mount
end ArchiveOs.Fs2
