import ArchiveOs.Unlinkings

-- A directory that is removed through its own entry: fs2_rm takes the directory for its
-- parent.
namespace ArchiveOs.Fs2
open Extents Layout

namespace Mount

theorem Mid.itable_words {t : Mount} (v : t.Mid) : ∀ c ∈ t.itable,c < 4294967296 := by
  intro c member
  obtain ⟨q,found⟩ := List.getElem?_of_mem member
  exact Nat.lt_trans (itable_bounds v found).2 t.nextBlock_lt

-- fs2_save_iblock_c stores what the cache holds, so every inode reads as before.
theorem saveIblockC_node {u : Mount} {q : Nat} (sound : u.disk.Sound)
    (addr : u.itable[u.vol.icindex.toNat]? = some u.vol.icaddr.toNat) (nodup : u.itable.Nodup)
    (small : ∀ c ∈ u.itable,c < 4294967296) (inside : q / 32 < u.itable.length)
    (fits : (u.inode q).ftype = ftypeDir → (u.inode q).regs ≠ [] → (u.inode q).eof.toNat ≤ 128 * total (u.inode q).regs)
    (dirs : (u.inode q).ftype = ftypeDir → ∀ c ∈ Extents.blocks (u.inode q).regs,c < 4294967296 ∧ c ∉ u.itable) :
    (Fs2.saveIblockC u).node q = u.node q := by
  rw [saveIblockC_ok sound]
  have stay : ∀ c,c < 4294967296 → c ≠ u.vol.icaddr.toNat →
      (u.stored u.vol.icaddr .icache (iblockLayout u.vol.icache)).at c = u.at c :=
    fun c small apart => stored_other u _ _ apart small
  have inode : ((u.stored u.vol.icaddr .icache (iblockLayout u.vol.icache)).out .success).inode q = u.inode q := by
    by_cases cached : q / 32 = u.vol.icindex.toNat
    · rw [inode_here cached]
      exact inode_here (s := (u.stored u.vol.icaddr .icache (iblockLayout u.vol.icache)).out .success) cached
    · obtain ⟨c,found⟩ : ∃ c,u.itable[q / 32]? = some c := ⟨_,List.getElem?_eq_getElem inside⟩
      have block := stay c (small c (List.mem_of_getElem? found)) fun same => by
        rw [same,← addr] at found
        exact cached ((List.getElem?_inj inside nodup).mp found)
      rw [inode_there cached]
      refine (inode_there (s := (u.stored u.vol.icaddr .icache (iblockLayout u.vol.icache)).out .success) cached).trans ?_
      unfold diskInode
      have table : ((u.stored u.vol.icaddr .icache (iblockLayout u.vol.icache)).out .success).itable = u.itable := rfl
      rw [table,List.getD_eq_getElem?_getD,found]
      simp only [Option.getD_some]
      exact congrArg (fun c => (iblockLayout.symm c).get ⟨q % 32,islot_lt q⟩) block
  unfold Mount.node
  rw [inode]
  refine Inode.node_congr fits fun dir c member => ?_
  refine stay c (dirs dir c member).1 fun same => (dirs dir c member).2 ?_
  rw [same]
  exact List.mem_of_getElem? addr

-- Away from inode x and block b everything is as it was.
structure Besides (t u : Mount) (x : UInt32) (b : Nat) : Prop where
  blk0 : u.vol.blk0 = t.vol.blk0
  hblock : u.vol.hblock = t.vol.hblock
  icindex : u.vol.icindex = t.vol.icindex
  icaddr : u.vol.icaddr = t.vol.icaddr
  slot : ∀ q,q ≠ x.toNat → q / 32 = t.vol.icindex.toNat →
    u.vol.icache.get ⟨q % 32,islot_lt q⟩ = t.vol.icache.get ⟨q % 32,islot_lt q⟩
  blocks : ∀ c,c < 4294967296 → c ≠ b → u.at c = t.at c
  works : u.disk.Works

namespace Besides
variable {t u : Mount} {x : UInt32} {b : Nat}

theorem refl (works : t.disk.Works) (x : UInt32) (b : Nat) : Besides t t x b :=
  ⟨rfl,rfl,rfl,rfl,fun _ _ _ => rfl,fun _ _ _ => rfl,works⟩

theorem out (a : Besides t u x b) (o : Outcome) : Besides t (u.out o) x b :=
  ⟨a.blk0,a.hblock,a.icindex,a.icaddr,a.slot,a.blocks,a.works⟩

theorem setEntry (a : Besides t u x b) (k : Nat) (e : DirEntry) : Besides t (u.setEntry k e) x b :=
  ⟨a.blk0,a.hblock,a.icindex,a.icaddr,a.slot,a.blocks,a.works⟩

theorem setCached (a : Besides t u x b) (here : t.vol.icindex = x / 32) (n : Inode) : Besides t (u.setCached x n) x b := by
  refine ⟨a.blk0,a.hblock,a.icindex,a.icaddr,fun q other cached => ?_,a.blocks,a.works⟩
  rw [← a.slot q other cached]
  have apart : x.toNat % 32 ≠ q % 32 := by
    have row : (x / 32).toNat = x.toNat / 32 := UInt32.toNat_div ..
    rw [here,row] at cached
    omega
  exact Vector.getElem_set_ne (islot_lt _) (islot_lt q) apart

theorem slid (a : Besides t u x b) {u' : Mount} (slid : Slid u u') : Besides t u' x b :=
  ⟨slid.blk0.trans a.blk0,slid.hblock.trans a.hblock,slid.icindex.trans a.icindex,slid.icaddr.trans a.icaddr,
    fun q other cached => by rw [slid.icache]; exact a.slot q other cached,
    fun c small other => by rw [slid.at_eq]; exact a.blocks c small other,Works.same a.works slid.toSame⟩

theorem stored (a : Besides t u x b) {w : UInt32} (here : w.toNat = b) (buffer : Buffer) (c : Block) :
    Besides t (u.stored w buffer c) x b :=
  ⟨a.blk0,a.hblock,a.icindex,a.icaddr,a.slot,
    fun d small other => (stored_other u buffer c (by rw [here]; exact other) small).trans (a.blocks d small other),
    ⟨fun n y => a.works.reads n y,fun n y => a.works.writes n y⟩⟩

theorem saveDblockC (a : Besides t u x b) (here : u.vol.dcaddr.toNat = b) :
    Besides t (Fs2.saveDblockC u) x b ∧ (Fs2.saveDblockC u).vol.outcome = .success := by
  unfold Fs2.saveDblockC
  rw [wblk_ok a.works.sound]
  exact ⟨(a.stored here .dcache _).out .success,rfl⟩

theorem loadDblockC (a : Besides t u x b) {w : UInt32} (away : w ≠ u.vol.dcaddr) :
    Besides t (Fs2.loadDblockC u w false) x b ∧ (Fs2.loadDblockC u w false).vol.outcome = .success ∧
      (Fs2.loadDblockC u w false).vol.dcaddr = w ∧ (Fs2.loadDblockC u w false).vol.icache = u.vol.icache ∧
      (Fs2.loadDblockC u w false).vol.dcache = dblockLayout.symm (u.at w.toNat) := by
  have block : u.at w.toNat = u.disk.blk (u.vol.blk0 + w) := by
    unfold Mount.at
    rw [UInt32.ofNat_toNat]
  unfold Fs2.loadDblockC
  rw [if_pos away,if_neg Bool.false_ne_true,rblk_ok (a.works.reads _ _),block]
  exact ⟨⟨a.blk0,a.hblock,a.icindex,a.icaddr,a.slot,a.blocks,⟨fun n y => a.works.reads n y,fun n y => a.works.writes n y⟩⟩,
    rfl,rfl,rfl,rfl⟩

variable (mid : t.Mid) (free : b ∉ t.itable)
include mid free

theorem inode (a : Besides t u x b) {q : Nat} (h : q < t.vol.hblock.nextInode.toNat) (other : q ≠ x.toNat) :
    u.inode q = t.inode q := by
  by_cases cached : q / 32 = t.vol.icindex.toNat
  · rw [inode_here (s := u) (by rw [a.icindex]; exact cached),inode_here cached]
    exact a.slot q other cached
  · rw [inode_there (s := u) (by rw [a.icindex]; exact cached),inode_there cached]
    obtain ⟨c,found⟩ : ∃ c,t.itable[q / 32]? = some c := ⟨_,List.getElem?_eq_getElem (mid.slot h)⟩
    have bound := (itable_bounds mid found).2
    have table : u.itable = t.itable := by unfold itable; rw [a.hblock]
    have block : u.at c = t.at c := by
      refine a.blocks _ (Nat.lt_trans bound t.nextBlock_lt) fun same => free ?_
      rw [← same]
      exact List.mem_of_getElem? found
    unfold diskInode
    rw [table,List.getD_eq_getElem?_getD,found]
    simp only [Option.getD_some,block]

variable (placed : t.Placed)
  (apart : ∀ q,q < t.vol.hblock.nextInode.toNat → q ≠ x.toNat → (t.inode q).ftype = ftypeDir → b ∉ Extents.blocks (t.inode q).regs)
include apart

theorem node (a : Besides t u x b) {q : Nat} (h : q < t.vol.hblock.nextInode.toNat) (other : q ≠ x.toNat) :
    u.node q = t.node q := by
  unfold Mount.node
  rw [a.inode mid free h other]
  refine Inode.node_congr (fun dir live => mid.fits h dir live) fun dir c member => ?_
  have d : t.image.DirBlock c := mid.ok.dirBlock (i := q) (by rw [t.image_node h]; exact dir) (by rw [t.image_node h]; exact member)
  exact a.blocks c (dirBlock_small d).1 fun same => apart q h other dir (by rw [← same]; exact member)

include placed

theorem saveIblockC (a : Besides t u x b) {q : Nat} (h : q < t.vol.hblock.nextInode.toNat) (other : q ≠ x.toNat) :
    (Fs2.saveIblockC u).node q = t.node q := by
  have addr := mid.iaddr placed
  have table : u.itable = t.itable := by unfold itable; rw [a.hblock]
  have inode := a.inode mid free h other
  rw [← a.node mid free apart h other]
  refine saveIblockC_node a.works.sound (by rw [table,a.icindex,a.icaddr]; exact addr) (by rw [table]; exact mid.ok.packed.nodup none)
    (by rw [table]; exact mid.itable_words) (by rw [table]; exact mid.slot h) ?_ ?_
  · rw [inode]
    exact fun dir live => mid.fits h dir live
  · rw [inode,table]
    intro dir c member
    exact dirBlock_small (mid.ok.dirBlock (i := q) (by rw [t.image_node h]; exact dir) (by rw [t.image_node h]; exact member))

end Besides

-- An empty directory in the inode cache.
structure Own (t : Mount) (x : UInt32) : Prop where
  valid : t.Valid
  works : t.disk.Works
  here : t.vol.icindex = x / 32
  placed : t.Placed
  exist : x.toNat < t.vol.hblock.nextInode.toNat
  dir : (t.inode x.toNat).ftype = ftypeDir
  live : (t.inode x.toNat).regs ≠ []
  eof : (t.inode x.toNat).eof.toNat = 2
  other : x.toNat ≠ 0

-- The header read as a block of entries.
def headerEntry (t : Mount) (k : Nat) : DirEntry := (dblockLayout.symm (t.at 0)).get ⟨k % 128,dslot_lt k⟩

-- The header has the index of x where directory entries have theirs.
def HeaderNames (t : Mount) (x : UInt32) : Prop :=
  (t.headerEntry 0).inodeIndex = x ∨ (t.headerEntry 1).inodeIndex = x

namespace Own
variable {t : Mount} {x : UInt32}

theorem move_iff (own : t.Own x) : x < t.vol.hblock.nextInode - 1 ↔ x.toNat + 1 < t.vol.hblock.nextInode.toNat := by
  have exist := own.exist
  have one : (1 : UInt32).toNat = 1 := rfl
  rw [UInt32.lt_iff_toNat_lt,UInt32.toNat_sub_of_le _ _ (UInt32.le_iff_toNat_le.mpr (by omega)),one]
  omega

theorem dirOk (own : t.Own x) : DirOk t.image x.toNat := by
  have node := t.image_node own.exist
  exact own.valid.ok.dirs x.toNat (by rw [image_length]; exact own.exist) (by rw [node]; exact own.dir) (by rw [node]; exact own.live)

-- A store to a block of the directory itself, or to block 0, leaves the others alone.
theorem apart (own : t.Own x) {b : Nat} (place : b = 0 ∨ b ∈ Extents.blocks (t.inode x.toNat).regs) : b ∉ t.itable ∧
    ∀ q,q < t.vol.hblock.nextInode.toNat → q ≠ x.toNat → (t.inode q).ftype = ftypeDir → b ∉ Extents.blocks (t.inode q).regs := by
  have node := t.image_node own.exist
  rcases place with rfl | member
  · refine ⟨own.valid.toMid.zero_free,fun q h _ _ member => ?_⟩
    have there : 0 ∈ Extents.blocks (t.image.node q).regs := by rw [t.image_node h]; exact member
    have bounds := own.valid.ok.packed.within (some q) 0 there
    omega
  · have member' : b ∈ Extents.blocks (t.image.node x.toNat).regs := by rw [node]; exact member
    have d : t.image.DirBlock b := own.valid.ok.dirBlock (i := x.toNat) (by rw [node]; exact own.dir) member'
    refine ⟨(dirBlock_small d).2,fun q h other _ there => other ?_⟩
    have there' : b ∈ Extents.blocks (t.image.node q).regs := by rw [t.image_node h]; exact there
    exact Option.some.inj (own.valid.ok.packed.apart (some q) (some x.toNat) b there' member')

-- fs2_unlink has put the entry `..` over the one it has found, or has found this one.
theorem unlinkAt (own : t.Own x) {u : Mount} {n : Inode} {b K : Nat} (a : Besides t u x b) (eof : n.eof.toNat = 2)
    (few : K < 2) (dcaddr : u.vol.dcaddr.toNat = b) :
    (u.unlinkAt x n K).vol.outcome = .success ∧ Besides t (u.unlinkAt x n K) x b := by
  unfold Mount.unlinkAt
  dsimp only
  by_cases last : K ≠ n.eof.toNat - 1
  · rw [if_pos last,if_neg (by omega)]
    have after := ((a.setEntry K (u.entry (n.eof.toNat - 1))).setCached own.here {n with eof := n.eof - 1}).saveDblockC dcaddr
    exact ⟨after.2,after.1⟩
  · rw [if_neg last]
    have after := (a.setCached own.here {n with eof := n.eof - 1}).saveDblockC dcaddr
    exact ⟨after.2,after.1⟩

theorem ends (own : t.Own x) {u : Mount} {b : Nat} (a : Besides t u x b)
    (place : b = 0 ∨ b ∈ Extents.blocks (t.inode x.toNat).regs) : (Fs2.saveIblockC u).vol.outcome = .success ∧
      ∀ q,q < t.vol.hblock.nextInode.toNat → q ≠ x.toNat → (Fs2.saveIblockC u).node q = t.node q := by
  obtain ⟨free,apart⟩ := own.apart place
  refine ⟨by rw [saveIblockC_ok a.works.sound]; rfl,fun q h other => ?_⟩
  exact a.saveIblockC own.valid.toMid free own.placed apart h other

def wipedInode (n : Inode) : Inode := {n with regStart := Vector.replicate 23 0}

theorem start_last (own : t.Own x) (last : ¬ x.toNat + 1 < t.vol.hblock.nextInode.toNat) :
    unlinkStart t x x = some (t.out .success) := by
  have still : decide (x < t.vol.hblock.nextInode - 1) = false := decide_eq_false fun less => last (own.move_iff.mp less)
  unfold unlinkStart getIblockC
  dsimp only
  rw [still,if_neg Bool.false_ne_true,if_neg (not_not.mpr own.here.symm)]

theorem start_wiped (own : t.Own x) (inner : x.toNat + 1 < t.vol.hblock.nextInode.toNat) :
    unlinkStart t x x = some ((t.setCached x (wipedInode (t.inode x.toNat))).out .success) := by
  have move : decide (x < t.vol.hblock.nextInode - 1) = true := decide_eq_true (own.move_iff.mpr inner)
  unfold unlinkStart getIblockC
  dsimp only
  rw [move,if_pos rfl,cached_inode own.here]
  exact if_neg (not_not.mpr own.here.symm)

theorem start (own : t.Own x) : ∃ u,unlinkStart t x x = some u ∧ u.vol.outcome = .success := by
  by_cases inner : x.toNat + 1 < t.vol.hblock.nextInode.toNat
  · exact ⟨_,own.start_wiped inner,rfl⟩
  · exact ⟨_,own.start_last inner,rfl⟩

theorem last (own : t.Own x) (last : ¬ x.toNat + 1 < t.vol.hblock.nextInode.toNat) :
    ∃ s',removeFrom t x x = some (s',true) ∧
      ∀ q,q < t.vol.hblock.nextInode.toNat → q ≠ x.toNat → s'.node q = t.node q := by
  have d := own.dirOk
  have node := t.image_node own.exist
  have link : ∀ k,k < 2 → (t.image.node x.toNat).links[k]? = some (linkAt t.at (blocks (t.inode x.toNat).regs) k) :=
    fun k less => links_getElem? own.exist own.dir own.live (by rw [own.eof]; exact less)
  have v : (t.out .success).Mid := own.valid.toMid.out .success
  obtain ⟨u,run,searched⟩ := unlinkLoop_look v x own.here own.exist own.dir own.live 2 (.refl v)
    (by rw [Nat.zero_add]; exact own.eof.symm) (show (t.out .success).Walk (t.inode x.toNat).regs 0 0 0 from
      .start (by have positive := d.positive; rw [node] at positive; exact positive)) fun k less => (by omega)
  have run' : Fs2.unlink (t.out .success) x x = some u := by
    unfold Fs2.unlink
    have cached : ((t.out .success).cached x).eof.toNat = 2 := by
      rw [← own.eof]
      exact congrArg (fun n : Inode => n.eof.toNat) (cached_inode own.here)
    rw [cached]
    exact run
  unfold removeFrom
  rw [own.start_last last]
  simp only [Option.bind_eq_bind,Option.bind_some]
  rw [if_neg (by simp),run']
  simp only [Option.bind_some]
  cases searched with
  | found K t' inside quarter hit slid calm holds result =>
      have few : K < 2 := by rw [← own.eof]; exact inside
      obtain ⟨b,at_0,dcaddr,_⟩ := holds
      have member := List.mem_of_getElem? at_0
      have d' : t.image.DirBlock b := own.valid.ok.dirBlock (i := x.toNat) (by rw [node]; exact own.dir) (by rw [node]; exact member)
      have word : t'.vol.dcaddr.toNat = b := by
        rw [dcaddr,UInt32.toNat_ofNat']
        exact Nat.mod_eq_of_lt (dirBlock_small d').1
      have eof : ((t.out .success).inode x.toNat).eof.toNat = 2 := own.eof
      obtain ⟨success,a⟩ := own.unlinkAt (((Besides.refl own.works x b).out .success).slid slid) eof few word
      rw [← result] at success a
      obtain ⟨fine,nodes⟩ := own.ends a (.inr member)
      rw [if_neg (by simp [success])]
      exact ⟨_,by rw [fine]; rfl,nodes⟩
  | missed slid calm outcome none =>
      have self := d.self
      rw [link 0 (by decide)] at self
      exact (none 0 (by show 0 < (t.inode x.toNat).eof.toNat; rw [own.eof]; decide) (by decide)
        (congrArg Link.inode (Option.some.inj self))).elim
  | failed slid loud fault outcome =>
      obtain ⟨n,y,_,bad⟩ := fault
      have fine := own.works.reads n y
      rw [show (t.out .success).disk.rdFails n y = t.disk.rdFails n y from rfl,fine] at bad
      cases bad

theorem wiped (own : t.Own x) (inner : x.toNat + 1 < t.vol.hblock.nextInode.toNat) :
    ∃ s' r,removeFrom t x x = some (s',r) ∧ (r = true ↔ t.HeaderNames x) ∧
      (r = true → ∀ q,q < t.vol.hblock.nextInode.toNat → q ≠ x.toNat → s'.node q = t.node q) := by
  obtain ⟨start,len,b,row,_,_,_,some_,_⟩ := front own.valid.toMid own.exist own.dir own.live (by rw [own.eof]; decide)
    (k := 0) (.start (by
      have positive := own.dirOk.positive
      rw [t.image_node own.exist] at positive
      exact positive))
  have start_eq := own.start_wiped inner
  have eof : (wipedInode (t.inode x.toNat)).eof.toNat = 2 := own.eof
  have row' : (wipedInode (t.inode x.toNat)).rows[0]? = some (0,len) := by
    rw [Inode.rows_getElem? _ row_pos] at row ⊢
    cases row
    rfl
  have nonzero : ¬ len = 0 := by
    intro zero
    rw [zero] at some_
    exact absurd some_ (Nat.lt_irrefl 0)
  generalize wipedInode (t.inode x.toNat) = n at start_eq eof row'
  have seen : ((t.setCached x n).out .success).cached x = n := cached_setCached t x n
  have away : (0 : UInt32) + UInt32.ofNat 0 ≠ ((t.setCached x n).out .success).vol.dcaddr := by
    intro same
    have zero : t.vol.dcaddr = 0 := same.symm
    rcases own.valid.dclean with none | ⟨d,_⟩
    · rw [zero] at none
      exact absurd none (by decide)
    · rw [zero] at d
      exact Nat.lt_irrefl 0 d.1
  have base : Besides t ((t.setCached x n).out .success) x 0 := ((Besides.refl own.works x 0).setCached own.here n).out .success
  obtain ⟨a,success,dcaddr,icache,dcache⟩ := base.loadDblockC away
  have block : ((t.setCached x n).out .success).at ((0 : UInt32) + UInt32.ofNat 0).toNat = t.at 0 := rfl
  rw [block] at dcache
  have step : Fs2.unlink ((t.setCached x n).out .success) x x =
      unlinkMatch x x n 1 (Fs2.loadDblockC ((t.setCached x n).out .success) (0 + UInt32.ofNat 0) false) 0
        (if (0 + 1) % len.toNat = 0 then 0 + 1 else 0) ((0 + 1) % len.toNat) := by
    unfold Fs2.unlink
    rw [seen,eof,unlinkLoop_succ,if_pos rfl,seen,row']
    dsimp only
    rw [if_neg (not_not.mpr success),if_neg nonzero]
  generalize Fs2.loadDblockC ((t.setCached x n).out .success) (0 + UInt32.ofNat 0) false = u at *
  have cached : u.cached x = n := by
    rw [← seen]
    unfold Mount.cached
    rw [icache]
  have place : u.vol.dcaddr.toNat = 0 := by rw [dcaddr]; rfl
  have first : (u.entry (0 % 32)).inodeIndex = (t.headerEntry 0).inodeIndex := by
    unfold Mount.entry
    rw [dcache]
    rfl
  have second : (u.entry (1 % 32)).inodeIndex = (t.headerEntry 1).inodeIndex := by
    unfold Mount.entry
    rw [dcache]
    rfl
  -- An entry that is found is overwritten, and the block is stored.
  have hit : ∀ K,K < 2 → ∃ s',(do
      let u ← some (u.unlinkAt x n K)
      if u.vol.outcome ≠ .success then some (u,false)
      else
        let u := Fs2.saveIblockC u
        some (u,decide (u.vol.outcome = .success))) = some (s',true) ∧
      ∀ q,q < t.vol.hblock.nextInode.toNat → q ≠ x.toNat → s'.node q = t.node q := by
    intro K few
    obtain ⟨success',a'⟩ := own.unlinkAt a eof few place
    obtain ⟨fine,nodes⟩ := own.ends a' (.inl rfl)
    refine ⟨Fs2.saveIblockC (u.unlinkAt x n K),?_,nodes⟩
    simp only [Option.bind_eq_bind,Option.bind_some]
    rw [if_neg (by simp [success']),fine]
    rfl
  unfold removeFrom
  rw [start_eq]
  simp only [Option.bind_eq_bind,Option.bind_some] at hit ⊢
  rw [if_neg (by simp),step]
  unfold unlinkMatch HeaderNames
  rw [first]
  by_cases here : (t.headerEntry 0).inodeIndex = x
  · obtain ⟨s',run,nodes⟩ := hit 0 (by decide)
    rw [if_pos here]
    exact ⟨s',true,run,⟨fun _ => .inl here,fun _ => rfl⟩,fun _ => nodes⟩
  · rw [if_neg here,unlinkLoop_succ,if_neg (by decide)]
    unfold unlinkMatch
    rw [cached,second]
    by_cases there : (t.headerEntry 1).inodeIndex = x
    · obtain ⟨s',run,nodes⟩ := hit 1 (by decide)
      rw [if_pos there]
      exact ⟨s',true,run,⟨fun _ => .inr there,fun _ => rfl⟩,fun _ => nodes⟩
    · rw [if_neg there]
      unfold unlinkLoop
      simp only [Option.bind_some]
      rw [if_pos (by simp)]
      exact ⟨_,false,rfl,⟨fun wrong => Bool.noConfusion wrong,fun names => (names.elim here there).elim⟩,
        fun wrong => Bool.noConfusion wrong⟩

end Own

end Mount
end ArchiveOs.Fs2
