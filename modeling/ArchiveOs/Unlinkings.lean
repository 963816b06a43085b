import ArchiveOs.Growths
import ArchiveOs.Pages
import ArchiveOs.Trails
import Mathlib.Data.Multiset.AddSub

-- What fs2_unlink does to the entries of a directory, in any run of creates, removes
-- and lookups.
namespace ArchiveOs.Fs2
open Extents Layout

namespace Mount

-- The names and inodes in the entries of a directory.
def pairs (s : Mount) (p : Nat) : Multiset Link := (s.node p).links

-- Exactly one entry is gone, and it led to the victim; no other directory has changed.
structure OneGone (t u : Mount) (p x : Nat) : Prop where
  gone : ∃ l : Link,l.inode = x ∧ t.pairs p = l ::ₘ u.pairs p
  others : ∀ q,q < t.vol.hblock.nextInode.toNat → q ≠ p → u.node q = t.node q

-- A call of fs2_unlink by fs2_rm that has succeeded.
structure Struck (s t u : Mount) (path : List UInt8) (x p : UInt32) (K : Nat) (l : Link) : Prop where
  victim : s.image.Victim path x.toNat p.toNat K
  dirOk : DirOk s.image p.toNat
  node : t.image.node p.toNat = s.image.node p.toNat
  exist : p.toNat < s.vol.hblock.nextInode.toNat
  below : p.toNat < t.vol.hblock.nextInode.toNat
  at_K : (s.image.node p.toNat).links[K]? = some l
  leads : l.inode = x.toNat
  quarter : K % 128 < 32
  dev : Dev s u
  replaced : Replaced t u p K (s.moved p.toNat K)
  fetched : s.Fetched u p.toNat K
  last : (s.image.node p.toNat).links.getD ((s.image.node p.toNat).eof - 1) default =
    linkAt s.at (blocks (s.inode p.toNat).regs) ((s.inode p.toNat).eof.toNat - 1)

section Call
variable {s t u : Mount} {x p : UInt32} {K : Nat} {l : Link}

-- How the call for a victim ends.
inductive Strike (s t u : Mount) (path : List UInt8) (x p : UInt32) (K : Nat) (l : Link) : Prop where
  | struck (struck : Struck s t u path x p K l)
  | lost (later : ¬ K % 128 < 32) (outcome : u.vol.outcome = .noFile)
  | failed (faulty : s.disk.Faulty) (outcome : u.vol.outcome = .diskRdErr)

theorem Sought.strike {t₀ : Mount} {path : List UInt8} (a : Sought s t₀ path x p K) (v : s.Valid) (sound : s.disk.Sound) :
    ∃ t u l,unlinkStart t₀ x p = some t ∧ t.vol.outcome = .success ∧ Fs2.unlink t p x = some u ∧
      Strike s t u path x p K l := by
  obtain ⟨l,site,moved,_⟩ := a.site v
  obtain ⟨t,ran,ready,_⟩ := unlinkStart_ready a.looked.valid (a.looked.toSame.sound sound) a.here a.placed site.exist
    site.below site.dir site.live a.victim.two site.at_K site.leads
  obtain ⟨u,run,ended⟩ := ready.unlink a.looked.valid (a.looked.toSame.sound sound) site.exist site.below site.dir
    site.live a.victim.two site.at_K site.leads
  refine ⟨t,u,l,ran,ready.outcome,run,?_⟩
  cases ended with
  | lost later outcome => exact .lost later outcome
  | failed _ _ fault outcome =>
    obtain ⟨n,y,_,bad⟩ := fault
    exact .failed ⟨n,y,by rw [← a.looked.rdFails]; exact bad⟩ outcome
  | hit hit =>
    obtain ⟨_,below,dir,live,above,_⟩ := a.victim.child v.good
    have hp : p.toNat < s.vol.hblock.nextInode.toNat := by simpa using below
    have image := a.looked.image v
    have d := v.ok.dirs p.toNat below dir live
    have at_K := site.at_K
    rw [image] at at_K
    have inside := (List.getElem?_eq_some_iff.mp at_K).1
    rw [d.count] at inside
    have inode := v.same_inode a.looked.valid a.looked.toSame hp
    refine .struck ⟨a.victim,d,(ready.node site.exist (by omega)).trans (by rw [image]),hp,?_,at_K,site.leads,hit.quarter,
      ((a.looked.dev a.calm).trans ready.toDev).trans hit.replaced.toDev,?_,?_,?_⟩
    · rw [ready.hblock]; exact site.below
    · rw [← moved]; exact hit.replaced
    · have fetched := hit.fetched
      unfold Fetched at fetched ⊢
      dsimp only at fetched ⊢
      rw [inode,moved] at fetched
      exact fetched
    · rw [s.image_node hp] at dir live inside
      exact last_link hp dir live inside

theorem unlink_struck (v : s.Valid) (sound : s.disk.Sound) {path : Path} (apart : s.image.Apart path.bytes)
    (call : unlinkCall s path.bytes = some (t,p,x)) (run : Fs2.unlink t p x = some u) (success : u.vol.outcome = .success) :
    ∃ K l,Struck s t u path.bytes x p K l := by
  rcases rm_sought v sound path apart with ⟨_,_,none,_⟩ | ⟨t₀,x₀,p₀,K,a,_,start⟩
  · rw [none] at call
    cases call
  obtain ⟨t₁,u₁,l,ran,fine,run',strike⟩ := a.strike v sound
  rw [call,ran,Option.bind_some,if_neg (by simp [fine])] at start
  cases start
  cases run.symm.trans run'
  cases strike with
  | struck struck => exact ⟨K,l,struck⟩
  | lost _ outcome => cases success.symm.trans outcome
  | failed _ outcome => cases success.symm.trans outcome

theorem unlink_called (v : s.Valid) (works : s.disk.Works) {path : Path} (apart : s.image.Apart path.bytes) {i d : Nat}
    (victim : s.image.Victim path.bytes i d K) :
    ∃ (t₀ t u : Mount) (x p : UInt32) (l : Link),x.toNat = i ∧ p.toNat = d ∧ rm s path = removeFrom t₀ x p ∧
      unlinkStart t₀ x p = some t ∧ t.vol.outcome = .success ∧ unlinkCall s path.bytes = some (t,p,x) ∧
      Fs2.unlink t p x = some u ∧ Strike s t u path.bytes x p K l := by
  rcases rm_sought v works.sound path apart with ⟨_,_,_,⟨_,_,_,_,why⟩ | halted⟩ | ⟨t₀,x,p,K',a,run,start⟩
  · rcases why _ _ victim.found with zero | full
    · exact absurd zero victim.other
    · exact absurd full victim.empty
  · exact (Works.not_faulty works halted.faulty).elim
  have same := a.victim.found.symm.trans victim.found
  cases same
  obtain ⟨_,below,dir,live,_,_⟩ := a.victim.child v.good
  obtain ⟨l₁,at_K,leads⟩ := a.victim.entry
  obtain ⟨l₂,at_K',leads'⟩ := victim.entry
  cases (v.ok.dirs p.toNat below dir live).unique a.victim.two at_K leads at_K' leads'
  obtain ⟨t,u,l,ran,fine,ran',strike⟩ := a.strike v works.sound
  rw [ran,Option.bind_some,if_neg (by simp [fine])] at start
  exact ⟨t₀,t,u,x,p,l,rfl,rfl,run,ran,fine,start,ran',strike⟩

theorem unlink_happens (v : s.Valid) (works : s.disk.Works) {path : Path} (apart : s.image.Apart path.bytes) {i d : Nat}
    (victim : s.image.Victim path.bytes i d K) (reach : K % 128 < 32) :
    ∃ (t u : Mount) (x p : UInt32) (l : Link),x.toNat = i ∧ p.toNat = d ∧ unlinkCall s path.bytes = some (t,p,x) ∧
      Fs2.unlink t p x = some u ∧ u.vol.outcome = .success ∧ Struck s t u path.bytes x p K l ∧
      (rm s path).map Prod.fst = some (Fs2.saveIblockC u) := by
  obtain ⟨t₀,t,u,x,p,l,index,parent,run,ran,fine,call,ran',strike⟩ := unlink_called v works apart victim
  cases strike with
  | lost later => exact absurd reach later
  | failed faulty => exact (Works.not_faulty works faulty).elim
  | struck struck =>
    have success := struck.replaced.outcome
    refine ⟨t,u,x,p,l,index,parent,call,ran',success,struck,?_⟩
    rw [run]
    unfold removeFrom
    rw [ran]
    simp only [Option.bind_eq_bind,Option.bind_some]
    rw [if_neg (by simp [fine]),ran']
    simp only [Option.bind_some]
    rw [if_neg (by simp [success])]
    rfl

theorem Struck.nodes (a : Struck s t u path x p K l) {q : Nat} (h : q < t.vol.hblock.nextInode.toNat) : u.node q =
    if q = p.toNat then (s.image.node p.toNat).replaceLink K (s.moved p.toNat K) else t.node q := by
  have h' : q < u.vol.hblock.nextInode.toNat := by rw [a.replaced.hblock]; exact h
  rw [← u.image_node h',a.replaced.image,Image.node_setNode _ q (by simpa using a.below),a.node]
  split
  · rfl
  · exact t.image_node h

-- The outdated entry takes the place of the removed one, and the last one is lost.
theorem Struck.exact_iff (a : Struck s t u path x p K l) : OneGone t u p.toNat x.toNat ↔ s.Fresh p.toNat K := by
  have before : t.pairs p.toNat = (s.image.node p.toNat).links := by
    unfold pairs
    rw [← t.image_node a.below,a.node]
  have after : u.pairs p.toNat = ((s.image.node p.toNat).replaceLink K (s.moved p.toNat K)).links := by
    unfold pairs
    rw [a.nodes a.below,if_pos rfl]
  have inside : K < (s.image.node p.toNat).eof := by
    rw [← a.dirOk.count]
    exact (List.getElem?_eq_some_iff.mp a.at_K).1
  constructor
  · intro exact
    obtain ⟨m,leads,gone⟩ := exact.gone
    rw [before,after] at gone
    have same : m = l := by
      have member : m ∈ (s.image.node p.toNat).links := by
        rw [← Multiset.mem_coe,gone]
        exact Multiset.mem_cons_self ..
      obtain ⟨k,at_k⟩ := List.getElem?_of_mem member
      cases a.dirOk.unique a.victim.two a.at_K a.leads at_k leads
      exact Option.some.inj (at_k.symm.trans a.at_K)
    subst same
    have whole := a.dirOk.count
    by_cases early : K < (s.image.node p.toNat).eof - 1
    · have exchanged := Multiset.coe_eq_coe.mpr (Node.replaceLink_perm (m := s.moved p.toNat K) a.at_K early)
      have last := Multiset.coe_eq_coe.mpr (Node.last_perm whole (by omega))
      rw [← Multiset.cons_coe,← gone,last,← Multiset.cons_coe,← Multiset.cons_coe,Multiset.cons_inj_left] at exchanged
      unfold Fresh
      rw [← a.last]
      exact exchanged.symm
    · unfold Fresh moved
      dsimp only
      rw [if_neg]
      rintro ⟨far,_⟩
      have eof : (s.inode p.toNat).eof.toNat = (s.image.node p.toNat).eof := by rw [s.image_node a.exist]; rfl
      omega
  · intro fresh
    refine ⟨⟨l,a.leads,?_⟩,fun q h other => ?_⟩
    · rw [before,after,fresh,← a.last]
      exact Multiset.coe_eq_coe.mpr (Node.dropLink_perm a.dirOk.count a.at_K)
    · rw [a.nodes h,if_neg other]

end Call

-- In a run whose removes have been careful, a call of fs2_unlink that succeeds removes
-- exactly one entry if and only if it does not move an outdated one.
theorem unlink_exact_iff {s t u : Mount} {x p : UInt32} {path : Path} (trail : Trail Careful s)
    (apart : s.image.Apart path.bytes) (call : unlinkCall s path.bytes = some (t,p,x))
    (run : Fs2.unlink t p x = some u) (success : u.vol.outcome = .success) :
    OneGone t u p.toNat x.toNat ↔ ∀ K,s.image.Victim path.bytes x.toNat p.toNat K → s.Fresh p.toNat K := by
  obtain ⟨v,works⟩ := trail.valid
  obtain ⟨K,l,struck⟩ := unlink_struck v works.sound apart call run success
  rw [struck.exact_iff]
  constructor
  · intro fresh K' victim
    obtain ⟨l',at_K',leads'⟩ := victim.entry
    cases struck.dirOk.unique struck.victim.two struck.at_K struck.leads at_K' leads'
    exact fresh
  · exact fun all => all K struck.victim

-- What any of these runs may do.
def AnyDeed (_ : Mount) (_ : Deed) : Prop := True

theorem Trail.any {admits : Mount → Deed → Prop} {s : Mount} (trail : Trail admits s) : Trail AnyDeed s := by
  induction trail with
  | format formatted => exact .format formatted
  | step _ fits _ run ih => exact .step ih fits trivial run

theorem History.runs {s : Mount} (history : History AnyOp s) (ops : List Op) (fits : ∀ op ∈ ops,∀ t,op.Fits t) :
    ∃ t,History AnyOp t ∧ t.image = ops.foldl (fun m op => op.apply m) s.image := by
  induction ops generalizing s with
  | nil => exact ⟨s,history,rfl⟩
  | cons op rest ih =>
      obtain ⟨t,_,next,image⟩ := history.next (fits op (.head _) s) trivial
      obtain ⟨u,last,image'⟩ := ih next fun op member => fits op (.tail _ member)
      exact ⟨u,last,by rw [image',image]; rfl⟩

-- A root directory with "a" 127 times, since nothing is found in a directory of one
-- block: the last one lies in its second block.
def crowd : Image where
  nblocks := 200
  nextBlock := 11
  perm := 3
  ilen := 8
  flen := 1
  dlen := 1
  iregs := [⟨1,8⟩]
  nodes := ⟨ftypeDir,3,129,0,[⟨9,1⟩,⟨10,1⟩],⟨Image.dot,0⟩ :: ⟨Image.dotdot,0⟩ :: (List.range 127).map fun i => ⟨fileA.bytes,i + 1⟩⟩ ::
    List.replicate 127 ⟨ftypeFile,3,0,0,[],[]⟩

theorem crowd_made : (List.replicate 127 (Op.create ftypeFile fileA)).foldl (fun m op => op.apply m)
    (formatImage 200 3 8 1 1) = crowd := by decide +kernel

theorem crowd_history : ∃ s : Mount,History AnyOp s ∧ s.image = crowd := by
  have passes : Passes 200 8 1 1 := ⟨by decide,by decide,by decide,by decide⟩
  obtain ⟨s,formatted,image⟩ := formats 3 passes (by decide)
  obtain ⟨t,history,crowded⟩ := (History.format formatted : History AnyOp s).runs
    (List.replicate 127 (Op.create ftypeFile fileA)) fun op member t => by
      rw [List.eq_of_mem_replicate member]
      trivial
  exact ⟨t,history,by rw [crowded,image,crowd_made]⟩

-- The first "a" is removed and a file "b" is created.
def crowdLess : Image := (crowd.wipe 1).setNode 0 ((crowd.node 0).dropLink 2)
def fileB : Path := ⟨[0x62],by decide⟩
def crowdNext : Image := (crowdLess.create ftypeFile fileB.bytes).1

theorem crowd_victim : crowd.Victim fileA.bytes 1 0 2 := by
  refine ⟨by decide +kernel,by decide,by decide +kernel,Nat.le_refl _,⟨fileA.bytes,1⟩,by decide +kernel,rfl⟩

theorem crowdNext_victim : crowdNext.Victim fileA.bytes 127 0 2 := by
  refine ⟨by decide +kernel,by decide,by decide +kernel,Nat.le_refl _,⟨fileA.bytes,127⟩,by decide +kernel,rfl⟩

section Crowd
variable {s s' : Mount}

theorem Victim.apart {m : Image} {path : List UInt8} {x p K : Nat} (a : m.Victim path x p K) (other : p ≠ x) : m.Apart path := by
  intro y self
  cases a.found.symm.trans self
  exact absurd rfl other

theorem Victim.only (v : s.Valid) {path : List UInt8} {x p K x' p' K' : Nat} (a : s.image.Victim path x p K)
    (b : s.image.Victim path x' p' K') : x' = x ∧ p' = p ∧ K' = K := by
  cases a.found.symm.trans b.found
  obtain ⟨_,below,dir,live,_,_⟩ := a.child v.good
  obtain ⟨l,at_K,leads⟩ := a.entry
  obtain ⟨l',at_K',leads'⟩ := b.entry
  exact ⟨rfl,rfl,(v.ok.dirs p below dir live).unique a.two at_K leads at_K' leads'⟩

theorem Victim.clear (v : s.Valid) {path : List UInt8} {x p K : Nat} (a : s.image.Victim path x p K) (other : p ≠ x)
    (reach : K % 128 < 32) (fresh : s.Fresh p K) : s.Clear path := by
  refine ⟨Victim.apart a other,fun x' p' K' b => ?_,fun x' p' K' b => ?_⟩
  · obtain ⟨rfl,rfl,rfl⟩ := Victim.only v a b
    exact reach
  · obtain ⟨rfl,rfl,rfl⟩ := Victim.only v a b
    exact fresh

end Crowd

-- A root directory of 129 entries in the blocks 9 and 10, seen through the inode.
structure Rooted (s : Mount) (l : Link) : Prop where
  blk : (s.inode 0).blk (((s.inode 0).eof.toNat - 1) / 128) = 10
  last : (s.inode 0).eof.toNat - 1 = 128
  link : linkAt s.at (blocks (s.inode 0).regs) 128 = l

theorem rooted {s : Mount} {l : Link} (exist : 0 < s.image.nodes.length) (dir : (s.image.node 0).ftype = ftypeDir)
    (eof : (s.image.node 0).eof = 129) (regs : (s.image.node 0).regs = [⟨9,1⟩,⟨10,1⟩])
    (at_last : (s.image.node 0).links[128]? = some l) : Rooted s l := by
  have h : 0 < s.vol.hblock.nextInode.toNat := by simpa using exist
  have node := s.image_node h
  have dir' : (s.inode 0).ftype = ftypeDir := by rw [node] at dir; exact dir
  have eof' : (s.inode 0).eof.toNat = 129 := by rw [node] at eof; exact eof
  have regs' : (s.inode 0).regs = [⟨9,1⟩,⟨10,1⟩] := by rw [node] at regs; exact regs
  have last : (s.inode 0).eof.toNat - 1 = 128 := by rw [eof']
  refine ⟨?_,last,?_⟩
  · rw [last]
    refine Inode.blk_some ?_
    rw [regs']
    rfl
  · have live : (s.inode 0).regs ≠ [] := by rw [regs']; exact List.cons_ne_nil _ _
    have link := links_getElem? h dir' live (k := 128) (by rw [eof']; decide)
    exact Option.some.inj (link.symm.trans at_last)

theorem outdated : ∃ (s : Mount) (i : Nat),Trail Careful s ∧ s.image.Victim fileA.bytes i 0 2 ∧ 0 ≠ i ∧ ¬ s.Fresh 0 2 := by
  obtain ⟨s,history,image⟩ := crowd_history
  have trail := history.trail
  obtain ⟨v,works⟩ := trail.valid
  have victim : s.image.Victim fileA.bytes 1 0 2 := by rw [image]; exact crowd_victim
  by_cases first : s.Fresh 0 2
  case neg => exact ⟨s,1,trail,victim,by decide,first⟩
  obtain ⟨t,u,x,p,l,index,parent,_,_,_,struck,removed⟩ := unlink_happens v works (Victim.apart victim (by decide)) victim (by decide)
  have clear := Victim.clear v victim (by decide) (by decide) first
  generalize saved : Fs2.saveIblockC u = s₂ at removed
  have trail₂ : Trail Careful s₂ := @Trail.step _ _ _ (.rm fileA) trail trivial clear removed
  have image₂ : s₂.image = crowdLess := by
    obtain ⟨s',r,run,cleared⟩ := rm_clear v works fileA clear
    cases removed.symm.trans (congrArg (Option.map Prod.fst) run)
    cases cleared with
    | removed victim' gone =>
      obtain ⟨rfl,rfl,rfl⟩ := Victim.only v victim victim'
      rw [gone.image,image]
      rfl
    | refused _ _ why =>
      rcases why _ _ victim.found with zero | full
      · exact absurd zero victim.other
      · exact absurd full victim.empty
  have fits : (Op.create ftypeFile fileB).Fits s₂ := trivial
  obtain ⟨w,made,valid,works',_,image₃⟩ := exec_spec trail₂.valid.1 trail₂.valid.2 fits
  have trail₃ : Trail Careful w := @Trail.step _ _ _ (.plain (.create ftypeFile fileB)) trail₂ trivial trivial made
  have image₃ : w.image = crowdNext := by
    rw [image₃,image₂]
    rfl
  have kept : w.gp = u.gp := by
    obtain ⟨⟨_,r⟩,run,rfl⟩ := Option.map_eq_some_iff.mp made
    rw [create_gp run,← saved]
    exact saveIblockC_gp u
  have victim₃ : w.image.Victim fileA.bytes 127 0 2 := by rw [image₃]; exact crowdNext_victim
  refine ⟨w,127,trail₃,victim₃,by decide,fun second => ?_⟩
  -- The cache has the entry that led to inode 127, while the last one leads to inode 128.
  have old : Rooted s ⟨fileA.bytes,127⟩ := by
    refine rooted ?_ ?_ ?_ ?_ ?_
    all_goals rw [image]; decide +kernel
  have new : Rooted w ⟨fileB.bytes,128⟩ := by
    refine rooted ?_ ?_ ?_ ?_ ?_
    all_goals rw [image₃]; decide +kernel
  have fetched := struck.fetched
  unfold Fetched at fetched
  unfold Fresh at first second
  rw [parent] at fetched
  simp only [old.last] at fetched first
  obtain ⟨named,held⟩ := fetched (by decide)
  have address : w.vol.xcaddr = 10 := by
    have same : w.vol.xcaddr = u.vol.xcaddr := congrArg Prod.fst kept
    have blk := old.blk
    rw [old.last] at blk
    exact same.trans (named.trans blk)
  have content : w.vol.xcache = u.vol.xcache := congrArg Prod.snd kept
  unfold moved at second
  simp only [new.last] at second
  have blk := new.blk
  rw [new.last] at blk
  rw [if_pos ⟨by decide,address.trans blk.symm⟩,new.link] at second
  simp only [content] at second
  have wrong := second.symm.trans (held.trans (first.trans old.link))
  exact absurd wrong (by decide)

theorem outdated_entry_moved : ¬ ∀ (s t u : Mount) (x p : UInt32) (path : Path),Trail AnyDeed s →
    unlinkCall s path.bytes = some (t,p,x) → Fs2.unlink t p x = some u → u.vol.outcome = .success →
    OneGone t u p.toNat x.toNat := by
  intro all
  obtain ⟨s,i,trail,victim,other,stale⟩ := outdated
  obtain ⟨v,works⟩ := trail.valid
  obtain ⟨t,u,x,p,l,index,parent,call,run,success,struck,_⟩ := unlink_happens v works (Victim.apart victim other) victim (by decide)
  have fresh := struck.exact_iff.mp (all s t u x p fileA trail.any call run success)
  rw [parent] at fresh
  exact stale fresh

theorem unlink_exact_crowd : ∃ (s t u : Mount) (x p : UInt32),s.image = crowd ∧ unlinkCall s fileA.bytes = some (t,p,x) ∧
    Fs2.unlink t p x = some u ∧ u.vol.outcome = .success ∧
    (OneGone t u p.toNat x.toNat ↔ ∀ K,s.image.Victim fileA.bytes x.toNat p.toNat K → s.Fresh p.toNat K) := by
  obtain ⟨s,history,image⟩ := crowd_history
  have trail := history.trail
  obtain ⟨v,works⟩ := trail.valid
  have victim : s.image.Victim fileA.bytes 1 0 2 := by rw [image]; exact crowd_victim
  have apart := Victim.apart victim (by decide)
  obtain ⟨t,u,x,p,_,_,_,call,run,success,_⟩ := unlink_happens v works apart victim (by decide)
  exact ⟨s,t,u,x,p,image,call,run,success,unlink_exact_iff trail apart call run success⟩

end Mount
end ArchiveOs.Fs2
