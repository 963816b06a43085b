import ArchiveOs.Selves
import ArchiveOs.WriteFrames

-- What fs2_rm does to the whole volume, whichever way it ends.
namespace ArchiveOs.Fs2
open Extents Layout

namespace Image
variable {m : Image}

theorem resolve_linked (good : m.Good) {x : Nat} {q : Option Nat} {path : List UInt8}
    (found : m.resolve path = .ok (x,q)) (other : x ≠ 0) : (m.node x).iparent < x ∧ x < m.nodes.length ∧
      ∃ k l,2 ≤ k ∧ (m.node (m.node x).iparent).links[k]? = some l ∧ l.inode = x := by
  obtain ⟨p,_,above,name,hit⟩ := resolve_parent good found other
  obtain ⟨dir,k,l,at_k,leads⟩ := lookup_link hit
  have attached := above.link good dir at_k
  rw [leads] at attached
  cases attached with
  | root => exact absurd rfl other
  | @child p' k' l' above' two dir' at_k' =>
      obtain ⟨less,exist,parent⟩ := (above'.dirOk good dir').child k' l' two at_k'
      rw [parent]
      exact ⟨less,exist,k',l',two,at_k',rfl⟩

theorem Victim.parent (good : m.Good) {path : List UInt8} {x p K : Nat} (a : m.Victim path x p K) :
    (m.node x).iparent = p := by
  obtain ⟨_,below,dir,live,_,_⟩ := a.child good
  obtain ⟨l,at_K,rfl⟩ := a.entry
  exact ((good.dirs p below dir live).child K l a.two at_K).2.2

-- A path leads to an entry of another directory, or to an entry of the directory itself.
theorem Victim.not_self (good : m.Good) {path : List UInt8} {x p K y : Nat} (a : m.Victim path x p K)
    (self : m.resolve path = .ok (y,some y)) : False := by
  obtain ⟨_,_,_,_,above,_⟩ := a.child good
  cases a.found.symm.trans self
  exact Nat.lt_irrefl _ above

end Image

namespace Mount

-- The ends of fs2_rm on a disk that works. A directory that is reached through its own
-- entry is searched for itself.
inductive Ends (s s' : Mount) (path : List UInt8) : Bool → Prop where
  | refused (looked : Looked s s') (why : ∀ x q,s.image.resolve path = .ok (x,q) →
      x = 0 ∨ ((s.image.node x).ftype = ftypeDir ∧ 2 < (s.image.node x).eof)) : Ends s s' path false
  | lost {x p K : Nat} (victim : s.image.Victim path x p K) (later : ¬ K % 128 < 32) : Ends s s' path false
  | struck {x p K : Nat} (victim : s.image.Victim path x p K) (quarter : K % 128 < 32)
      (gone : (∃ l : Link,l.inode = x ∧ s.pairs p = l ::ₘ s'.pairs p) ↔ s.Fresh p K)
      (others : ∀ q,q < s.vol.hblock.nextInode.toNat → q ≠ p → q ≠ x → s'.node q = s.node q) : Ends s s' path true
  | self {r : Bool} {x : UInt32} (found : s.image.resolve path = .ok (x.toNat,some x.toNat)) (other : x.toNat ≠ 0)
      (empty : ¬ ((s.image.node x.toNat).ftype = ftypeDir ∧ 2 < (s.image.node x.toNat).eof))
      (hit : r = true ↔ ¬ x.toNat + 1 < s.vol.hblock.nextInode.toNat ∨ s.HeaderNames x)
      (others : r = true → ∀ q,q < s.vol.hblock.nextInode.toNat → q ≠ x.toNat → s'.node q = s.node q) : Ends s s' path r

section Call
variable {s t u : Mount} {x p : UInt32} {K : Nat} {l : Link}

theorem Struck.ending (a : Struck s t u path x p K l) (works : s.disk.Works) (r : Ready t₀ t x p) {q : Nat}
    (h : q < t.vol.hblock.nextInode.toNat) : (Fs2.saveIblockC u).node q = u.node q := by
  have mid := r.mid
  have table : u.itable = t.itable := by unfold itable; rw [a.replaced.hblock]
  have addr := mid.iaddr r.placed
  rw [r.here,← a.replaced.icindex,← a.replaced.icaddr] at addr
  have before : t.image.node q = t.node q := t.image_node h
  have whole : (u.node q).ftype = (t.node q).ftype ∧ (u.node q).regs = (t.node q).regs ∧ (u.node q).eof ≤ (t.node q).eof := by
    rw [a.nodes h]
    split
    · rename_i same
      rw [← before,same,a.node]
      exact ⟨rfl,rfl,Nat.sub_le ..⟩
    · exact ⟨rfl,rfl,Nat.le_refl _⟩
  obtain ⟨ftype,regs,eof⟩ := whole
  refine saveIblockC_node (Works.dev works a.dev).sound (by rw [table]; exact addr) (by rw [table]; exact mid.ok.packed.nodup none)
    (by rw [table]; exact mid.itable_words) (by rw [table]; exact mid.slot h) ?_ ?_
  · intro dir live
    have dir' : (t.inode q).ftype = ftypeDir := ftype.symm.trans dir
    have regs' : (u.inode q).regs = (t.inode q).regs := regs
    rw [regs'] at live ⊢
    exact Nat.le_trans eof (mid.fits h dir' live)
  · intro dir c member
    have dir' : (t.inode q).ftype = ftypeDir := ftype.symm.trans dir
    have regs' : (u.inode q).regs = (t.inode q).regs := regs
    rw [regs'] at member
    rw [table]
    exact dirBlock_small (mid.ok.dirBlock (i := q) (by rw [before]; exact dir') (by rw [before]; exact member))

theorem Sought.ends {path : Path} (a : Sought s t₀ path.bytes x p K) (v : s.Valid) (works : s.disk.Works) :
    ∃ s' r,removeFrom t₀ x p = some (s',r) ∧ Ends s s' path.bytes r := by
  obtain ⟨l₀,site,_,_⟩ := a.site v
  obtain ⟨t,u,l,ran,fine,ran',strike⟩ := a.strike v works.sound
  obtain ⟨t',ran₂,ready,_⟩ := unlinkStart_ready a.looked.valid (a.looked.toSame.sound works.sound) a.here a.placed site.exist
    site.below site.dir site.live a.victim.two site.at_K site.leads
  cases ran.symm.trans ran₂
  unfold removeFrom
  rw [ran]
  simp only [Option.bind_eq_bind,Option.bind_some]
  rw [if_neg (by simp [fine]),ran']
  simp only [Option.bind_some]
  cases strike with
  | failed faulty => exact (Works.not_faulty works faulty).elim
  | lost later outcome =>
      rw [if_pos (by rw [outcome]; decide)]
      exact ⟨u,false,rfl,.lost a.victim later⟩
  | struck struck =>
      rw [if_neg (by simp [struck.replaced.outcome])]
      have sound := (Works.dev works struck.dev).sound
      refine ⟨Fs2.saveIblockC u,true,by rw [saveIblockC_ok sound]; rfl,?_⟩
      obtain ⟨_,_,_,_,above,_⟩ := a.victim.child v.good
      have length : t.vol.hblock.nextInode = s.vol.hblock.nextInode := by rw [ready.hblock,a.looked.hblock]
      have ends : ∀ q,q < s.vol.hblock.nextInode.toNat → (Fs2.saveIblockC u).node q = u.node q :=
        fun q h => struck.ending works ready (by rw [length]; exact h)
      have before : ∀ q,q < s.vol.hblock.nextInode.toNat → q ≠ x.toNat → t.node q = s.node q := by
        intro q h other
        rw [← t.image_node (by rw [length]; exact h),ready.image,Image.node_wipe (by simpa using site.exist) other,
          a.looked.image v,s.image_node h]
      have others : ∀ q,q < t.vol.hblock.nextInode.toNat → q ≠ p.toNat → u.node q = t.node q :=
        fun q h other => by rw [struck.nodes h,if_neg other]
      refine .struck a.victim struck.quarter ?_ fun q h other apart => ?_
      · rw [← struck.exact_iff]
        have start : s.pairs p.toNat = t.pairs p.toNat := by
          unfold pairs
          rw [before _ struck.exist (by omega)]
        have finish : (Fs2.saveIblockC u).pairs p.toNat = u.pairs p.toNat := by
          unfold pairs
          rw [ends _ struck.exist]
        rw [start,finish]
        exact ⟨fun gone => ⟨gone,others⟩,fun one => one.gone⟩
      · rw [ends q h,others q (by rw [length]; exact h) other,before q h apart]

end Call

section Run
variable {s s' : Mount}

theorem HeaderNames.same {t : Mount} (same : Same s t) (x : UInt32) : t.HeaderNames x ↔ s.HeaderNames x := by
  unfold HeaderNames headerEntry
  rw [same.at_eq]

-- A path that leads to an empty directory from itself brings fs2_rm to its own remove.
theorem self_own (v : s.Valid) (works : s.disk.Works) (path : Path) {i : Nat}
    (found : s.image.resolve path.bytes = .ok (i,some i)) (other : i ≠ 0)
    (empty : ¬ ((s.image.node i).ftype = ftypeDir ∧ 2 < (s.image.node i).eof)) :
    ∃ (t : Mount) (x : UInt32),x.toNat = i ∧ t.Own x ∧ Looked s t ∧ rm s path = removeFrom t x x ∧
      unlinkCall s path.bytes = (unlinkStart t x x).bind fun u => if u.vol.outcome ≠ .success then none else some (u,x,x) := by
  rcases rm_reaches v works.sound path found other empty with ⟨_,_,_,halted⟩ |
    ⟨t,x,q,rfl,parent,looked,_,here,placed,exist,_,run,call⟩
  · exact (Works.not_faulty works halted.faulty).elim
  obtain ⟨y,rfl,same⟩ := Option.map_eq_some_iff.mp parent
  cases UInt32.toNat_inj.mp same
  have inode : t.inode x.toNat = s.inode x.toNat := v.same_inode looked.valid looked.toSame exist
  obtain ⟨p,q,attached,name,hit⟩ := Image.resolve_parent v.good found other
  cases q
  obtain ⟨dir,_⟩ := Image.lookup_link hit
  obtain ⟨below,alive⟩ := attached.alive v.good
  have live := alive dir
  have d := v.ok.dirs x.toNat below dir live
  have two : 2 ≤ (s.image.node x.toNat).eof := by
    have inside := (List.getElem?_eq_some_iff.mp d.up).1
    rw [d.count] at inside
    exact inside
  have eof : (s.image.node x.toNat).eof = 2 := Nat.le_antisymm (Nat.not_lt.mp fun more => empty ⟨dir,more⟩) two
  rw [s.image_node exist] at dir live eof
  refine ⟨t,x,rfl,⟨looked.valid,Works.same works looked.toSame,here,placed,by rw [looked.hblock]; exact exist,
    by rw [inode]; exact dir,by rw [inode]; exact live,by rw [inode]; exact eof,other⟩,looked,run,call⟩

theorem rm_ends (v : s.Valid) (works : s.disk.Works) (path : Path) : ∃ s' r,rm s path = some (s',r) ∧ Ends s s' path.bytes r := by
  have calm := Works.not_faulty works
  by_cases apart : s.image.Apart path.bytes
  · rcases rm_sought v works.sound path apart with ⟨s',run,_,⟨looked,_,_,_,why⟩ | halted⟩ | ⟨t,x,p,K,sought,run,_⟩
    · exact ⟨s',false,run,.refused looked why⟩
    · exact (calm halted.faulty).elim
    · obtain ⟨s',r,removed,ends⟩ := sought.ends v works
      exact ⟨s',r,run.trans removed,ends⟩
  · unfold Image.Apart at apart
    simp only [not_forall,not_or] at apart
    obtain ⟨i,found,other,empty⟩ := apart
    obtain ⟨t,x,rfl,own,looked,run,_⟩ := self_own v works path found other empty
    have node : ∀ q,q < s.vol.hblock.nextInode.toNat → t.node q = s.node q := by
      intro q h
      rw [← t.image_node (by rw [looked.hblock]; exact h),looked.image v,s.image_node h]
    by_cases inner : x.toNat + 1 < s.vol.hblock.nextInode.toNat
    · obtain ⟨s',r,removed,hit,nodes⟩ := own.wiped (by rw [looked.hblock]; exact inner)
      refine ⟨s',r,run.trans removed,.self found other empty ?_ fun fine q h apart => ?_⟩
      · rw [hit,HeaderNames.same looked.toSame]
        exact ⟨.inr,fun both => both.resolve_left (not_not.mpr inner)⟩
      · rw [nodes fine q (by rw [looked.hblock]; exact h) apart,node q h]
    · obtain ⟨s',removed,nodes⟩ := own.last (by rw [looked.hblock]; exact inner)
      refine ⟨s',true,run.trans removed,.self found other empty ⟨fun _ => .inl inner,fun _ => rfl⟩ fun _ q h apart => ?_⟩
      rw [nodes q (by rw [looked.hblock]; exact h) apart,node q h]

end Run

-- The first two entries of a directory.
structure Dotted (s : Mount) (q : Nat) : Prop where
  self : (s.node q).links[0]? = some ⟨Image.dot,q⟩
  up : (s.node q).links[1]? = some ⟨Image.dotdot,(s.node q).iparent⟩

-- Of all entries only the one that led to x in its parent is gone.
structure ExactlyGone (s s' : Mount) (x : Nat) : Prop where
  entry : ∃ l : Link,l.inode = x ∧ s.pairs (s.node x).iparent = l ::ₘ s'.pairs (s.node x).iparent
  others : ∀ q,q < s.vol.hblock.nextInode.toNat → q ≠ (s.node x).iparent → q ≠ x → s'.node q = s.node q
  dots : ∀ q,q < s.vol.hblock.nextInode.toNat → q ≠ x → (s'.node q).ftype = ftypeDir → (s'.node q).regs ≠ [] → s'.Dotted q

def RemovesExactly (s : Mount) (path : Path) : Prop :=
  ∀ s',rm s path = some (s',true) → ∃ x : UInt32,s.Resolves path x ∧ s.ExactlyGone s' x.toNat

-- The entry that takes the place of the removed one is not outdated, and nothing is found
-- when a directory is searched for itself.
structure Unmistaken (s : Mount) (path : List UInt8) : Prop where
  fresh : ∀ x p K,s.image.Victim path x p K → K % 128 < 32 → s.Fresh p K
  apart : ∀ x : UInt32,s.image.resolve path = .ok (x.toNat,some x.toNat) → x.toNat ≠ 0 →
    ¬ ((s.image.node x.toNat).ftype = ftypeDir ∧ 2 < (s.image.node x.toNat).eof) →
    x.toNat + 1 < s.vol.hblock.nextInode.toNat ∧ ¬ s.HeaderNames x

section Exactly
variable {s s' : Mount}

theorem Valid.dotted (v : s.Valid) {q : Nat} (h : q < s.vol.hblock.nextInode.toNat) (dir : (s.node q).ftype = ftypeDir)
    (live : (s.node q).regs ≠ []) : s.Dotted q := by
  have node := s.image_node h
  have d := v.ok.dirs q (by simpa using h) (by rw [node]; exact dir) (by rw [node]; exact live)
  have self := d.self
  have up := d.up
  rw [node] at self up
  exact ⟨self,up⟩

theorem not_gone {x p : Nat} (same : s'.node p = s.node p) : ¬ ∃ l : Link,l.inode = x ∧ s.pairs p = l ::ₘ s'.pairs p := by
  rintro ⟨l,_,gone⟩
  unfold pairs at gone
  rw [same] at gone
  exact absurd gone (Multiset.lt_cons_self _ l).ne

theorem exactly_iff (v : s.Valid) (works : s.disk.Works) (path : Path) : s.RemovesExactly path ↔ s.Unmistaken path.bytes := by
  obtain ⟨s',r,run,ends⟩ := rm_ends v works path
  constructor
  · intro exact
    constructor
    · intro x p K victim quarter
      cases ends with
      | refused _ why => exact ((why _ _ victim.found).elim victim.other victim.empty).elim
      | lost victim' later =>
          obtain ⟨_,_,rfl⟩ := Victim.only v victim victim'
          exact absurd quarter later
      | self found => exact (victim.not_self v.good found).elim
      | struck victim' _ gone =>
          obtain ⟨rfl,rfl,rfl⟩ := Victim.only v victim victim'
          obtain ⟨y,resolved,only⟩ := exact s' run
          obtain ⟨q,found⟩ := (resolves_iff v works path y).mp resolved
          have same := victim.found.symm.trans found
          obtain ⟨_,_,_,_,_,exist⟩ := victim.child v.good
          have parent := victim.parent v.good
          rw [s.image_node (by simpa using exist)] at parent
          simp only [Except.ok.injEq,Prod.mk.injEq] at same
          refine gone.mp ?_
          have entry := only.entry
          rw [← same.1,parent] at entry
          exact entry
    · intro x found other empty
      cases ends with
      | refused _ why => exact ((why _ _ found).elim other empty).elim
      | lost victim => exact (victim.not_self v.good found).elim
      | struck victim => exact (victim.not_self v.good found).elim
      | @self _ y found' _ _ hit others =>
          have same := found'.symm.trans found
          simp only [Except.ok.injEq,Prod.mk.injEq] at same
          cases UInt32.toNat_inj.mp same.1
          have kept : r ≠ true := by
            rintro rfl
            obtain ⟨z,resolved,only⟩ := exact s' run
            obtain ⟨q,found₂⟩ := (resolves_iff v works path z).mp resolved
            have index := found.symm.trans found₂
            simp only [Except.ok.injEq,Prod.mk.injEq] at index
            obtain ⟨less,exist,_⟩ := Image.resolve_linked v.good found other
            have below : x.toNat < s.vol.hblock.nextInode.toNat := by simpa using exist
            rw [s.image_node below] at less
            have entry := only.entry
            rw [← index.1] at entry
            exact not_gone (others rfl _ (Nat.lt_trans less below) (Nat.ne_of_lt less)) entry
          rw [Ne,hit,not_or,not_not] at kept
          exact kept
  · intro clean t run'
    cases run.symm.trans run'
    cases ends with
    | self found other empty hit =>
        obtain ⟨inner,strange⟩ := clean.apart _ found other empty
        exact ((hit.mp rfl).elim (not_not.mpr inner) strange).elim
    | @struck x p K victim quarter gone others =>
        have fresh := clean.fresh x p K victim quarter
        obtain ⟨_,below,_,_,above,exist⟩ := victim.child v.good
        obtain ⟨i,index,resolved⟩ := resolves_word v works path victim.found
        have parent := victim.parent v.good
        rw [s.image_node (by simpa using exist)] at parent
        obtain ⟨t,r,run₂,cleared⟩ := rm_clear v works path (Victim.clear v victim (Nat.ne_of_lt above) quarter fresh)
        cases run.symm.trans run₂
        have valid := (cleared.valid works).1
        refine ⟨i,resolved,?_,?_,?_⟩
        · rw [index,parent]
          exact gone.mpr fresh
        · rw [index,parent]
          exact others
        · intro q h _ dir live
          refine valid.dotted ?_ dir live
          cases cleared with
          | removed _ removed =>
              have length : s'.image.nodes.length = s.image.nodes.length := by
                rw [removed.image,Image.length_setNode,Image.length_wipe]
              rw [image_length,image_length] at length
              rw [length]
              exact h

theorem removes_exactly_iff (trail : Trail Careful s) (path : Path) : s.RemovesExactly path ↔ s.Unmistaken path.bytes :=
  exactly_iff trail.valid.1 trail.valid.2 path

end Exactly

-- The directory "d" and the path "d/.".
def dirD : Path := ⟨[0x64],by decide⟩
def dirDDot : Path := ⟨[0x64,0x2F,0x2E],by decide⟩
def oneDir : Image := ((formatImage 200 3 8 1 2).create ftypeDir dirD.bytes).1

theorem oneDir_history : ∃ s : Mount,History AnyOp s ∧ s.image = oneDir := by
  have passes : Passes 200 8 1 2 := ⟨by decide,by decide,by decide,by decide⟩
  obtain ⟨s,formatted,image⟩ := formats 3 passes (by decide)
  obtain ⟨t,history,made⟩ := (History.format formatted : History AnyOp s).runs [Op.create ftypeDir dirD] fun op member t => by
    rw [List.mem_singleton.mp member]
    trivial
  exact ⟨t,history,by rw [made,image]; rfl⟩

-- The directory is removed through its own entry, and it is its own entry that goes.
theorem own_entry_removed : ¬ ∀ (s : Mount) (path : Path),Trail AnyDeed s → s.RemovesExactly path := by
  intro all
  obtain ⟨s,history,image⟩ := oneDir_history
  obtain ⟨v,works⟩ := history.trail.valid
  have clean := (exactly_iff v works dirDDot).mp (all s dirDDot history.trail.any)
  have found : s.image.resolve dirDDot.bytes = .ok ((1 : UInt32).toNat,some (1 : UInt32).toNat) := by
    rw [image]
    decide +kernel
  have length : s.vol.hblock.nextInode.toNat = 2 := by
    rw [← image_length,image]
    decide +kernel
  have inner := (clean.apart 1 found (by decide) (by rw [image]; decide +kernel)).1
  rw [length] at inner
  exact absurd inner (by decide)

theorem removes_exactly_oneDir : ∃ s : Mount,s.image = oneDir ∧ (s.RemovesExactly dirD ↔ s.Unmistaken dirD.bytes) := by
  obtain ⟨s,history,image⟩ := oneDir_history
  exact ⟨s,image,removes_exactly_iff history.trail dirD⟩

-- Nothing that a path leads to, no inode and no byte of a file has changed.
structure SameFiles (s s' : Mount) : Prop where
  nextInode : s'.vol.hblock.nextInode = s.vol.hblock.nextInode
  paths : ∀ path i,s'.Resolves path i ↔ s.Resolves path i
  inodes : ∀ i,i < s.vol.hblock.nextInode.toNat → s'.node i = s.node i
  contents : ∀ i,i < s.vol.hblock.nextInode.toNat → (s.inode i).ftype ≠ ftypeDir → ∀ b ∈ blocks (s.inode i).regs,s'.at b = s.at b

-- The same operations from both mounts, with careful removes among them.
inductive Later (s s' : Mount) : Mount → Mount → Prop where
  | start : Later s s' s s'
  | step {t t' u u' : Mount} {deed : Deed} : Later s s' t t' → deed.Fits t → Careful t deed → Careful t' deed →
      deed.exec t = some u → deed.exec t' = some u' → Later s s' u u'

-- What can be removed: a file or an empty directory that is an entry of its parent.
structure Removable (s : Mount) (x : Nat) : Prop where
  other : x ≠ 0
  empty : ¬ ((s.node x).ftype = ftypeDir ∧ 2 < (s.node x).eof)
  linked : ∃ k l,2 ≤ k ∧ (s.node (s.node x).iparent).links[k]? = some l ∧ l.inode = x

def FailsHarmlessly (s : Mount) (path : Path) : Prop :=
  ∃ s' r,rm s path = some (s',r) ∧ (r = false → ∀ t t',Later s s' t t' → SameFiles t t') ∧
    ((∃ x : UInt32,s.Resolves path x ∧ s.Removable x.toNat) → r = true)

-- The entry is where fs2_unlink looks for it.
structure Findable (s : Mount) (path : List UInt8) : Prop where
  reach : ∀ x p K,s.image.Victim path x p K → K % 128 < 32
  self : ∀ x : UInt32,s.image.resolve path = .ok (x.toNat,some x.toNat) → x.toNat ≠ 0 →
    ¬ ((s.image.node x.toNat).ftype = ftypeDir ∧ 2 < (s.image.node x.toNat).eof) →
    ¬ x.toNat + 1 < s.vol.hblock.nextInode.toNat ∨ s.HeaderNames x

section Harmless
variable {s s' t t' : Mount}

theorem Alike.sameFiles (alike : Alike s s') : SameFiles s s' := by
  have length : s'.image.nodes.length = s.image.nodes.length := by rw [alike.image]
  rw [image_length,image_length] at length
  refine ⟨UInt32.toNat_inj.mp length,fun path i => ?_,fun i h => ?_,fun i h file b member => ?_⟩
  · rw [resolves_iff alike.valid' alike.works',resolves_iff alike.valid alike.works,alike.image]
  · rw [← s'.image_node (by rw [length]; exact h),alike.image,s.image_node h]
  · refine alike.bytes b (.inl ⟨i,by simpa using h,?_,?_⟩)
    · rw [s.image_node h]; exact file
    · rw [s.image_node h]; exact member

theorem Alike.rm (alike : Alike s s') {path : Path} (clear : s.Clear path.bytes) (clear' : s'.Clear path.bytes) {r r' : Bool}
    (run : rm s path = some (t,r)) (run' : Fs2.rm s' path = some (t',r')) : r' = r ∧ Alike t t' := by
  obtain ⟨_,_,run₁,cleared⟩ := rm_clear alike.valid alike.works path clear
  cases run.symm.trans run₁
  obtain ⟨_,_,run₂,cleared'⟩ := rm_clear alike.valid' alike.works' path clear'
  cases run'.symm.trans run₂
  have after := cleared.valid alike.works
  have after' := cleared'.valid alike.works'
  have same := alike.image
  cases cleared with
  | removed victim removed =>
      cases cleared' with
      | removed victim' removed' =>
          rw [same] at victim'
          obtain ⟨rfl,rfl,rfl⟩ := Victim.only alike.valid victim victim'
          have image : t'.image = t.image := by rw [removed'.image,removed.image,same]
          refine ⟨rfl,after.1,after.2,after'.1,after'.2,image,fun b file => ?_⟩
          rw [removed.files b file,removed'.files b (by rw [image]; exact file)]
          exact alike.bytes b (removed.grows.fileBlock removed.valid.ok file)
      | refused _ _ why =>
          rw [same] at why
          exact ((why _ _ victim.found).elim victim.other victim.empty).elim
  | refused looked _ why =>
      cases cleared' with
      | removed victim' =>
          rw [same] at victim'
          exact ((why _ _ victim'.found).elim victim'.other victim'.empty).elim
      | refused looked' => exact ⟨rfl,alike.look looked.toSame looked.valid looked'.toSame looked'.valid⟩

theorem Alike.deed {u u' : Mount} (alike : Alike t t') {deed : Deed} (fits : deed.Fits t) (careful : Careful t deed)
    (careful' : Careful t' deed) (run : deed.exec t = some u) (run' : deed.exec t' = some u') : Alike u u' := by
  cases deed with
  | plain op =>
      obtain ⟨v,same,next⟩ := alike.exec fits run
      cases run'.symm.trans same
      exact next
  | rm path =>
      obtain ⟨⟨_,_⟩,first,rfl⟩ := Option.map_eq_some_iff.mp run
      obtain ⟨⟨_,_⟩,second,rfl⟩ := Option.map_eq_some_iff.mp run'
      exact (alike.rm careful careful' first second).2

theorem Alike.later (alike : Alike s s') (later : Later s s' t t') : Alike t t' := by
  induction later with
  | start => exact alike
  | step _ fits careful careful' run run' ih => exact ih.deed fits careful careful' run run'

theorem Looked.alike (looked : Looked s s') (v : s.Valid) (works : s.disk.Works) : Alike s s' :=
  ⟨v,works,looked.valid,Works.same works looked.toSame,looked.image v,fun b _ => by rw [looked.at_eq]⟩

theorem removable (v : s.Valid) (works : s.disk.Works) {path : Path} {x : Nat} {q : Option Nat}
    (found : s.image.resolve path.bytes = .ok (x,q)) (other : x ≠ 0)
    (empty : ¬ ((s.image.node x).ftype = ftypeDir ∧ 2 < (s.image.node x).eof)) :
    ∃ i : UInt32,s.Resolves path i ∧ s.Removable i.toNat := by
  obtain ⟨i,rfl,resolved⟩ := resolves_word v works path found
  obtain ⟨less,exist,k,l,two,at_k,leads⟩ := Image.resolve_linked v.good found other
  rw [image_length] at exist
  rw [s.image_node (Nat.lt_trans less exist),s.image_node exist] at at_k
  rw [s.image_node exist] at empty
  exact ⟨i,resolved,other,empty,k,l,two,at_k,leads⟩

theorem harmless_iff (v : s.Valid) (works : s.disk.Works) (path : Path) : s.FailsHarmlessly path ↔ s.Findable path.bytes := by
  obtain ⟨s',r,run,ends⟩ := rm_ends v works path
  constructor
  · rintro ⟨t,r',run',_,succeeds⟩
    cases run.symm.trans run'
    constructor
    · intro x p K victim
      cases ends with
      | refused _ why => exact ((why _ _ victim.found).elim victim.other victim.empty).elim
      | lost => exact absurd (succeeds (removable v works victim.found victim.other victim.empty)) (by decide)
      | self found => exact (victim.not_self v.good found).elim
      | struck victim' quarter =>
          obtain ⟨_,_,rfl⟩ := Victim.only v victim' victim
          exact quarter
    · intro x found other empty
      cases ends with
      | refused _ why => exact ((why _ _ found).elim other empty).elim
      | lost victim => exact (victim.not_self v.good found).elim
      | struck victim => exact (victim.not_self v.good found).elim
      | @self _ y found' _ _ hit =>
          have same := found'.symm.trans found
          simp only [Except.ok.injEq,Prod.mk.injEq] at same
          cases UInt32.toNat_inj.mp same.1
          exact hit.mp (succeeds (removable v works found other empty))
  · intro findable
    refine ⟨s',r,run,?_⟩
    cases ends with
    | refused looked why =>
        refine ⟨fun _ t t' later => ((looked.alike v works).later later).sameFiles,?_⟩
        rintro ⟨x,resolved,removable⟩
        obtain ⟨q,found⟩ := (resolves_iff v works path x).mp resolved
        rcases why _ _ found with zero | full
        · exact absurd zero removable.other
        · obtain ⟨_,exist,_⟩ := Image.resolve_linked v.good found removable.other
          rw [s.image_node (by simpa using exist)] at full
          exact absurd full removable.empty
    | lost victim later => exact absurd (findable.reach _ _ _ victim) later
    | struck => exact ⟨fun failed => Bool.noConfusion failed,fun _ => rfl⟩
    | self found other empty hit =>
        have fine := hit.mpr (findable.self _ found other empty)
        rw [fine]
        exact ⟨fun failed => Bool.noConfusion failed,fun _ => rfl⟩

theorem removes_harmless_iff (trail : Trail Careful s) (path : Path) : s.FailsHarmlessly path ↔ s.Findable path.bytes :=
  harmless_iff trail.valid.1 trail.valid.2 path

end Harmless

-- A root directory with "a" 32 times and then "b" 95 times, made as the crowd was: the
-- first "b" lies behind the first quarter of its block.
def lateOps : List Op := List.replicate 32 (Op.create ftypeFile fileA) ++ List.replicate 95 (Op.create ftypeFile fileB)
def lateB : Image := lateOps.foldl (fun m op => op.apply m) (formatImage 200 3 8 1 1)

theorem lateB_history : ∃ s : Mount,History AnyOp s ∧ s.image = lateB := by
  have passes : Passes 200 8 1 1 := ⟨by decide,by decide,by decide,by decide⟩
  obtain ⟨s,formatted,image⟩ := formats 3 passes (by decide)
  obtain ⟨t,history,made⟩ := (History.format formatted : History AnyOp s).runs lateOps fun op member t => by
    rcases List.mem_append.mp member with first | last
    · rw [List.eq_of_mem_replicate first]
      trivial
    · rw [List.eq_of_mem_replicate last]
      trivial
  exact ⟨t,history,by rw [made,image]; rfl⟩

theorem lateB_victim : lateB.Victim fileB.bytes 33 0 34 :=
  ⟨by decide +kernel,by decide,by decide +kernel,by decide,⟨fileB.bytes,33⟩,by decide +kernel,rfl⟩

-- The remove fails although the file is there.
theorem late_entry_kept : ¬ ∀ (s : Mount) (path : Path),Trail AnyDeed s → s.FailsHarmlessly path := by
  intro all
  obtain ⟨s,history,image⟩ := lateB_history
  obtain ⟨v,works⟩ := history.trail.valid
  have findable := (harmless_iff v works fileB).mp (all s fileB history.trail.any)
  have quarter := findable.reach 33 0 34 (by rw [image]; exact lateB_victim)
  exact absurd quarter (by decide)

theorem removes_harmless_lateB : ∃ s : Mount,s.image = lateB ∧ (s.FailsHarmlessly fileA ↔ s.Findable fileA.bytes) := by
  obtain ⟨s,history,image⟩ := lateB_history
  exact ⟨s,image,removes_harmless_iff history.trail fileA⟩

end Mount
end ArchiveOs.Fs2
