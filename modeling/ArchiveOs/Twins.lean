import ArchiveOs.Histories

-- Two mounts of volumes with the same image and the same bytes in all files, whatever
-- their caches hold: every operation keeps them so.
namespace ArchiveOs.Fs2
open Extents Layout

namespace Image
variable {m : Image}

theorem puts_congr (src : Nat → UInt8) (ps : List Put) {c c' : (Nat → Block) × Block} {keep : Nat → Prop}
    (blocks : ∀ b,keep b → c'.1 b = c.1 b) (cached : c'.2 = c.2) :
    ∀ b,keep b → (puts src ps c').1 b = (puts src ps c).1 b := by
  induction ps generalizing c c' with
  | nil => exact blocks
  | cons p rest ih =>
      refine ih ?_ ?_
      · intro b kept
        unfold Put.apply
        dsimp only
        rw [cached]
        by_cases here : b = p.block
        · rw [here,Function.update_self,Function.update_self]
        · rw [Function.update_of_ne here,Function.update_of_ne here]
          exact blocks b kept
      · unfold Put.apply
        dsimp only
        rw [cached]

theorem blkOrGrow_block {m' : Image} {i q sz b : Nat} (h : i < m.nodes.length) (file : (m.node i).ftype ≠ ftypeDir)
    (found : m.blkOrGrow i q sz = .ok (m',b)) : m.FileBlock b := by
  cases at_q : (Extents.blocks (m.node i).regs)[q]? with
  | some b' =>
      rw [blkOrGrow_some at_q] at found
      cases found
      exact .inl ⟨i,h,file,List.mem_of_getElem? at_q⟩
  | none =>
      rw [blkOrGrow_none at_q] at found
      split at found
      · cases found
      · split at found
        · cases found
        · cases found
          exact .inr ⟨Nat.le_refl _,by omega⟩

theorem writeAt_first {i : Nat} {nbytes cursor : UInt32} {w : Written} (h : i < m.nodes.length)
    (file : (m.node i).ftype ≠ ftypeDir) (wrote : m.writeAt i nbytes cursor = .ok w) :
    ∃ p ps,w.puts = p :: ps ∧ m.FileBlock p.block := by
  unfold writeAt at wrote
  dsimp only at wrote
  split at wrote
  · cases wrote
  · rename_i m₁ b found
    have block := blkOrGrow_block h file found
    split at wrote
    · cases wrote
      exact ⟨_,_,rfl,block⟩
    · split at wrote
      · cases wrote
        exact ⟨_,_,rfl,block⟩
      · cases wrote
        exact ⟨_,_,rfl,block⟩

theorem stores_cons {w : Written} {p : Put} {ps : List Put} (shape : w.puts = p :: ps) (src : Nat → UInt8)
    (rd : Nat → Block) : w.stores src rd = (puts src (p :: ps) (rd,rd p.block)).1 := by
  unfold Written.stores
  rw [shape]

theorem stores_congr {rd rd' : Nat → Block} (same : ∀ b,m.FileBlock b → rd' b = rd b)
    (exist : ∀ i q path,m.resolve path = .ok (i,q) → i < m.nodes.length) (path : List UInt8) (src : Nat → UInt8)
    (nbytes cursor : UInt32) :
    ∀ b,m.FileBlock b → m.stores path src nbytes cursor rd' b = m.stores path src nbytes cursor rd b := by
  intro b file
  unfold stores
  cases found : m.resolve path with
  | error e => exact same b file
  | ok r =>
    obtain ⟨i,q⟩ := r
    dsimp only
    by_cases other : (m.node i).ftype ≠ ftypeFile
    · rw [if_pos other,if_pos other]
      exact same b file
    · rw [if_neg other,if_neg other]
      cases wrote : m.writeAt i nbytes cursor with
      | error e => exact same b file
      | ok w =>
        have notDir : (m.node i).ftype ≠ ftypeDir := by rw [not_not.mp other]; decide
        obtain ⟨p,ps,shape,first⟩ := writeAt_first (exist i q path found) notDir wrote
        dsimp only
        rw [stores_cons shape,stores_cons shape]
        exact puts_congr src (p :: ps) same (same _ first) b file

end Image

namespace Mount

structure Alike (s s' : Mount) : Prop where
  valid : s.Valid
  works : s.disk.Works
  valid' : s'.Valid
  works' : s'.disk.Works
  image : s'.image = s.image
  bytes : ∀ b,s.image.FileBlock b → s'.at b = s.at b

namespace Alike
variable {s s' t : Mount}

theorem refl (v : s.Valid) (works : s.disk.Works) : Alike s s := ⟨v,works,v,works,rfl,fun _ _ => rfl⟩

theorem create (alike : Alike s s') {ftype : UInt8} {path : Path} {r : Bool} (run : create s ftype path = some (t,r)) :
    ∃ t',Fs2.create s' ftype path = some (t',r) ∧ t'.vol.outcome = t.vol.outcome ∧ Alike t t' := by
  have image := alike.image
  obtain ⟨u,q,run₁,ended⟩ := create_spec alike.valid alike.works.sound ftype path
    (createLookups_quiet alike.valid alike.works.sound path alike.works.reads)
  cases run.symm.trans run₁
  obtain ⟨t',q,run₂,ended'⟩ := create_spec alike.valid' alike.works'.sound ftype path
    (createLookups_quiet alike.valid' alike.works'.sound path alike.works'.reads)
  rcases ended with ⟨grew,valid,made,outcome,rfl⟩ | ⟨stopped,_⟩
  · rcases ended' with ⟨grew',valid',made',outcome',rfl⟩ | ⟨stopped,_⟩
    · rw [image] at made' outcome'
      have same := outcome'.trans outcome.symm
      refine ⟨t',by rw [run₂,same],same,valid,Works.dev alike.works grew.toDev,valid',Works.dev alike.works' grew'.toDev,
        made'.trans made.symm,fun b file => ?_⟩
      have old := grew.grows.fileBlock valid.ok file
      rw [grew'.files b (by rw [made',← made]; exact file),grew.files b file]
      exact alike.bytes b old
    · exact (Works.not_faulty alike.works' stopped.faulty).elim
  · exact (Works.not_faulty alike.works stopped.faulty).elim

theorem write (alike : Alike s s') {path : Path} {src : Nat → UInt8} {nbytes cursor : UInt32} {r : Int}
    (run : Fs2.write s path src nbytes cursor = some (t,r)) :
    ∃ t',Fs2.write s' path src nbytes cursor = some (t',r) ∧ t'.vol.outcome = t.vol.outcome ∧ Alike t t' := by
  have image := alike.image
  obtain ⟨u,q,run₁,ended⟩ := write_spec alike.valid alike.works.sound path src nbytes cursor fun _ t => alike.works.reads t _
  cases run.symm.trans run₁
  obtain ⟨t',q,run₂,ended'⟩ := write_spec alike.valid' alike.works'.sound path src nbytes cursor fun _ t => alike.works'.reads t _
  rcases ended with ⟨written,result,_⟩ | ⟨halted,_⟩
  · rcases ended' with ⟨written',result',_⟩ | ⟨halted,_⟩
    · have wrote := written.image
      have wrote' := written'.image
      have bytes' := written'.bytes
      rw [image] at result' wrote' bytes'
      have same := Prod.mk.inj (result'.trans result.symm)
      refine ⟨t',by rw [run₂,same.2],same.1,written.valid,Works.dev alike.works written.toDev,
        written'.valid,Works.dev alike.works' written'.toDev,wrote'.trans wrote.symm,fun b file => ?_⟩
      have old := written.grows.fileBlock written.valid.ok file
      rw [bytes' b old,written.bytes b old]
      refine Image.stores_congr alike.bytes (fun i q path found => ?_) path.bytes src nbytes cursor b old
      exact ((Image.resolve_attached alike.valid.good found).alive alike.valid.good).1
    · exact (Works.not_faulty alike.works' halted.faulty).elim
  · exact (Works.not_faulty alike.works halted.faulty).elim

theorem look {u u' : Mount} (alike : Alike s s') (same : Same s u) (valid : u.Valid) (same' : Same s' u') (valid' : u'.Valid) :
    Alike u u' := by
  have image := alike.valid.same_image valid same
  refine ⟨valid,Works.same alike.works same,valid',Works.same alike.works' same',?_,fun b file => ?_⟩
  · rw [alike.valid'.same_image valid' same',image]
    exact alike.image
  · rw [same'.at_eq,same.at_eq]
    exact alike.bytes b (by rw [← image]; exact file)

theorem isftype (alike : Alike s s') {path : Path} {ftype : UInt8} {r : Bool} (run : Fs2.isftype s path ftype = some (t,r)) :
    ∃ t',Fs2.isftype s' path ftype = some (t',r) ∧ t'.vol.outcome = t.vol.outcome ∧ Alike t t' := by
  obtain ⟨u,q,run₁,ended⟩ := isftype_look alike.valid alike.works.sound path ftype
  cases run.symm.trans run₁
  obtain ⟨t',q,run₂,ended'⟩ := isftype_look alike.valid' alike.works'.sound path ftype
  rcases ended with ⟨looked,_,result⟩ | ⟨stopped,_⟩
  · rcases ended' with ⟨looked',_,result'⟩ | ⟨stopped,_⟩
    · rw [alike.image] at result'
      have same := Prod.mk.inj (result'.trans result.symm)
      exact ⟨t',by rw [run₂,same.2],same.1,
        alike.look looked.toSame looked.valid looked'.toSame looked'.valid⟩
    · exact (Works.not_faulty alike.works' stopped.faulty).elim
  · exact (Works.not_faulty alike.works stopped.faulty).elim

theorem ls (alike : Alike s s') {path : Path} {nchars : Int} {r : Bool × List UInt8}
    (dirs : ∀ i q,s.image.resolve path.bytes = .ok (i,q) → (s.image.node i).ftype = ftypeDir)
    (run : Fs2.ls s path nchars = some (t,r)) :
    ∃ t',Fs2.ls s' path nchars = some (t',r) ∧ t'.vol.outcome = t.vol.outcome ∧ Alike t t' := by
  obtain ⟨u,q,run₁,ended⟩ := ls_look alike.valid alike.works.sound path nchars dirs
  cases run.symm.trans run₁
  obtain ⟨t',q,run₂,ended'⟩ := ls_look alike.valid' alike.works'.sound path nchars (by rw [alike.image]; exact dirs)
  rcases ended with ⟨looked,_,result⟩ | ⟨stopped,_⟩
  · rcases ended' with ⟨looked',_,result'⟩ | ⟨stopped,_⟩
    · rw [alike.image] at result'
      have same := Prod.mk.inj (result'.trans result.symm)
      exact ⟨t',by rw [run₂,same.2],same.1,
        alike.look looked.toSame looked.valid looked'.toSame looked'.valid⟩
    · exact (Works.not_faulty alike.works' stopped.faulty).elim
  · exact (Works.not_faulty alike.works stopped.faulty).elim

theorem exec (alike : Alike s s') {op : Op} (fits : op.Fits s) (run : op.exec s = some t) :
    ∃ t',op.exec s' = some t' ∧ Alike t t' := by
  cases op with
  | create ftype path =>
      obtain ⟨⟨_,r⟩,made,rfl⟩ := Option.map_eq_some_iff.mp run
      obtain ⟨t',made',_,next⟩ := alike.create made
      exact ⟨t',congrArg (Option.map Prod.fst) made',next⟩
  | write path src nbytes cursor =>
      obtain ⟨⟨_,r⟩,wrote,rfl⟩ := Option.map_eq_some_iff.mp run
      obtain ⟨t',wrote',_,next⟩ := alike.write wrote
      exact ⟨t',congrArg (Option.map Prod.fst) wrote',next⟩
  | read path nbytes cursor =>
      obtain ⟨⟨_,r⟩,read,rfl⟩ := Option.map_eq_some_iff.mp run
      obtain ⟨u,q,run₁,viewed⟩ := read_view alike.valid alike.works.sound path nbytes cursor
      cases read.symm.trans run₁
      obtain ⟨t',q,run₂,viewed'⟩ := read_view alike.valid' alike.works'.sound path nbytes cursor
      exact ⟨t',congrArg (Option.map Prod.fst) run₂,alike.look viewed.toSame viewed.valid viewed'.toSame viewed'.valid⟩
  | isftype path ftype =>
      obtain ⟨⟨_,r⟩,asked,rfl⟩ := Option.map_eq_some_iff.mp run
      obtain ⟨t',asked',_,next⟩ := alike.isftype asked
      exact ⟨t',congrArg (Option.map Prod.fst) asked',next⟩
  | ls path nchars =>
      obtain ⟨⟨_,r⟩,listed,rfl⟩ := Option.map_eq_some_iff.mp run
      obtain ⟨t',listed',_,next⟩ := alike.ls fits listed
      exact ⟨t',congrArg (Option.map Prod.fst) listed',next⟩

end Alike

-- Operations one after the other.
inductive Runs : Mount → List Op → Mount → Prop where
  | nil {s : Mount} : Runs s [] s
  | cons {s t u : Mount} {op : Op} {ops : List Op} : op.Fits s → op.exec s = some t → Runs t ops u → Runs s (op :: ops) u

end Mount
end ArchiveOs.Fs2
