import ArchiveOs.Creates
import ArchiveOs.Unlinks

-- Removing by path: the victim loses its regions, its directory the entry.
namespace ArchiveOs.Fs2
open Extents Layout

theorem DirOk.unique {m : Image} {p x K K' : Nat} {l l' : Link} (d : DirOk m p) (two : 2 ≤ K)
    (at_K : (m.node p).links[K]? = some l) (leads : l.inode = x) (at_K' : (m.node p).links[K']? = some l')
    (leads' : l'.inode = x) : K' = K := by
  have above := (d.child K l two at_K).1
  match K' with
  | 0 =>
    rw [d.self] at at_K'
    cases at_K'
    have self : p = x := leads'
    omega
  | 1 =>
    rw [d.up] at at_K'
    cases at_K'
    have up : (m.node p).iparent = x := leads'
    have := d.parent
    omega
  | k + 2 => exact d.distinct _ _ l' l (by omega) two at_K' at_K (leads'.trans leads.symm)

namespace Mount

-- fs2_rm behind the checks of the victim, up to its call of fs2_unlink and whole.
def unlinkStart (s : Mount) (ind p : UInt32) : Option Mount :=
  let move : Bool := ind < s.vol.hblock.nextInode - 1
  let s := if move then s.setCached ind {s.cached ind with regStart := Vector.replicate 23 0} else s
  getIblockC s (p / 32) false move

def removeFrom (s : Mount) (ind p : UInt32) : Option (Mount × Bool) := do
  let s ← unlinkStart s ind p
  if s.vol.outcome ≠ .success then some (s,false)
  else
    let s ← unlink s p ind
    if s.vol.outcome ≠ .success then some (s,false)
    else
      let s := Fs2.saveIblockC s
      some (s,s.vol.outcome = .success)

theorem rm_eq (s : Mount) (path : Path) : rm s path = (do
    let (s,ind,p) ← findFile s path.bytes
    if s.vol.outcome ≠ .success then some (s,false)
    else if ind = 0 then some (s.out .badPermissions,false)
    else
      let s ← getIblockC s (ind / 32) false false
      if s.vol.outcome ≠ .success then some (s,false)
      else if (s.cached ind).ftype = ftypeDir ∧ (s.cached ind).eof > 2 then some (s.out .badFtype,false)
      else removeFrom s ind (p.getD 0)) := rfl

-- Where fs2_rm calls fs2_unlink: the mount, the directory and the victim.
def unlinkCall (s : Mount) (path : List UInt8) : Option (Mount × UInt32 × UInt32) := do
  let (s,ind,p) ← findFile s path
  if s.vol.outcome ≠ .success ∨ ind = 0 then none
  else
    let s ← getIblockC s (ind / 32) false false
    if s.vol.outcome ≠ .success ∨ ((s.cached ind).ftype = ftypeDir ∧ (s.cached ind).eof > 2) then none
    else
      let s ← unlinkStart s ind (p.getD 0)
      if s.vol.outcome ≠ .success then none else some (s,p.getD 0,ind)

section Wipe
variable {s : Mount} {x : UInt32}

theorem wiped_regs (n : Inode) : ({n with regStart := Vector.replicate 23 0} : Inode).regs = [] ∧
    Tidy ({n with regStart := Vector.replicate 23 0} : Inode).rows := by
  have rows : ({n with regStart := Vector.replicate 23 0} : Inode).rows = (List.replicate 23 0).zip n.regLen.toList := by
    unfold Inode.rows
    rw [Vector.toList_zip,Vector.toList_replicate]
  unfold Inode.regs
  rw [rows]
  exact ⟨regions_replicate _ _,tidy_replicate _ _⟩

theorem wiped_node (n : Inode) (rd : Nat → Block) : ({n with regStart := Vector.replicate 23 0} : Inode).node rd =
    {n.node rd with regs := [],links := []} := by
  unfold Inode.node
  rw [(wiped_regs n).1,if_neg fun both => both.2 rfl]

-- A mount that is about to search the directory p for the victim x.
structure Ready (s t : Mount) (x p : UInt32) : Prop extends Dev s t where
  mid : t.Mid
  saved : t.Saved
  here : t.vol.icindex = p / 32
  placed : t.Placed
  hblock : t.vol.hblock = s.vol.hblock
  image : t.image = s.image.wipe x.toNat
  parent : t.inode p.toNat = s.inode p.toNat
  stay : ∀ b, b < 4294967296 → b ∉ s.itable → t.at b = s.at b
  xcaddr : t.vol.xcaddr = s.vol.xcaddr
  xcache : t.vol.xcache = s.vol.xcache
  outcome : t.vol.outcome = .success

theorem ready_move {p : UInt32} (v : s.Valid) (sound : s.disk.Sound) (here : s.vol.icindex = x / 32) (placed : s.Placed)
    (h : x.toNat < s.vol.hblock.nextInode.toNat) (hp : p.toNat < s.vol.hblock.nextInode.toNat)
    (other : p.toNat ≠ x.toNat) (ok : (s.image.wipe x.toNat).Ok) (grows : s.image.Grows (s.image.wipe x.toNat))
    (move : x.toNat + 1 < s.vol.hblock.nextInode.toNat) :
    ∃ t,getIblockC (s.setCached x {s.cached x with regStart := Vector.replicate 23 0}) (p / 32) false true = some t ∧
      Ready s t x p := by
  have cached := cached_inode here
  have node : ({s.inode x.toNat with regStart := Vector.replicate 23 0} : Inode).node s.at =
      {s.image.node x.toNat with regs := [],links := []} := by
    rw [wiped_node,s.image_node h]; rfl
  have image := image_setCached here {s.inode x.toNat with regStart := Vector.replicate 23 0}
  have wiped : s.image.wipe x.toNat = s.image.setNode x.toNat {s.image.node x.toNat with regs := [],links := []} := by
    unfold Image.wipe
    exact if_pos (by simpa using move)
  rw [if_pos h,node,← wiped] at image
  have mid : (s.setCached x {s.inode x.toNat with regStart := Vector.replicate 23 0}).Mid := by
    refine v.setCached_live here h (wiped_regs _).2 ?_ ?_
    · rw [node,← wiped]; exact ok
    · rw [node,← wiped]; exact grows
  obtain ⟨b,found⟩ := itable_holds v.toMid hp
  rw [cached]
  obtain ⟨t,run,turned⟩ := getIblockC_save (q := p / 32) mid sound placed
    (by rw [UInt32.toNat_div]; exact found) false
  refine ⟨t,run,⟨turned.blk0,turned.rdFails,turned.wrFails,turned.failed,turned.later⟩,turned.mid,?_,turned.icindex,?_,
    turned.hblock,turned.image.trans image,?_,turned.stay,turned.xcaddr,turned.xcache,turned.outcome⟩
  · exact turned.saved mid v.saved
  · unfold Placed
    rw [turned.icindex,turned.itable_eq,UInt32.toNat_div]
    exact (List.getElem?_eq_some_iff.mp found).1
  · rw [turned.inode _ (v.slot hp),inode_setCached here,if_neg other]

theorem ready_stay {p : UInt32} (v : s.Valid) (sound : s.disk.Sound) (hp : p.toNat < s.vol.hblock.nextInode.toNat)
    (last : ¬ x.toNat + 1 < s.vol.hblock.nextInode.toNat) :
    ∃ t,getIblockC s (p / 32) false false = some t ∧ Ready s t x p ∧ Looked s t := by
  obtain ⟨t,run,looked,here,success,calm,_⟩ := getIblockC_inode v sound hp false
  refine ⟨t,run,⟨looked.dev calm,looked.valid.toMid,looked.valid.saved,here,Placed.inode v looked.toSame hp here,
    looked.hblock,?_,v.same_inode looked.valid looked.toSame hp,fun b _ _ => by rw [looked.at_eq],looked.xcaddr,
    looked.xcache,success⟩,looked⟩
  rw [looked.image v]
  unfold Image.wipe
  exact (if_neg (by simpa using last)).symm

end Wipe

-- The victim is gone and its directory has one entry less; all that is left of the
-- other files stays.
structure Removed (s s' : Mount) (x p K : Nat) : Prop extends Grew s s' where
  valid : s'.Valid
  image : s'.image = (s.image.wipe x).setNode p ((s.image.node p).dropLink K)
  outcome : s'.vol.outcome = .success

section Unlink
variable {s t : Mount} {x p : UInt32} {K : Nat} {l : Link}

theorem Ready.node (r : Ready s t x p) (hx : x.toNat < s.vol.hblock.nextInode.toNat) (other : p.toNat ≠ x.toNat) :
    t.image.node p.toNat = s.image.node p.toNat := by
  rw [r.image]
  exact Image.node_wipe (by simpa using hx) other

theorem Ready.removed {u : Mount} (r : Ready s t x p) (v : s.Valid) (sound : s.disk.Sound)
    (hx : x.toNat < s.vol.hblock.nextInode.toNat) (hp : p.toNat < s.vol.hblock.nextInode.toNat)
    (dir : (s.image.node p.toNat).ftype = ftypeDir) (live : (s.image.node p.toNat).regs ≠ []) (two : 2 ≤ K)
    (at_K : (s.image.node p.toNat).links[K]? = some l) (leads : l.inode = x.toNat) (a : Unlinked t u p K) :
    Removed s (Fs2.saveIblockC u) x.toNat p.toNat K := by
  have above := ((v.ok.dirs p.toNat (by simpa using hp) dir live).child K l two at_K).1
  obtain ⟨_,wipes,good⟩ := v.good.unlink (by simpa using hp) dir live two at_K
  rw [leads] at wipes good
  have image : u.image = (s.image.wipe x.toNat).setNode p.toNat ((s.image.node p.toNat).dropLink K) := by
    rw [a.image,r.node hx (by omega),r.image]
    rfl
  have grows : s.image.Grows u.image := by
    have later := a.grows
    rw [r.image] at later
    exact wipes.trans later
  have saved := a.mid.saveIblockC (a.sound (r.sound sound)) a.placed
  have header : (Fs2.saveIblockC u).Saved := by
    unfold Saved
    rw [saved.stay 0 (by decide) a.mid.zero_free,a.header,saved.hblock,a.hblock]
    exact r.saved
  refine ⟨⟨(r.toDev.trans a.toDev).trans saved.toDev,by rw [saved.image]; exact grows,?_⟩,
    ⟨saved.mid,?_,header,saved.clean⟩,saved.image.trans image,saved.outcome⟩
  · intro b f
    rw [saved.image] at f
    have f_t := a.grows.fileBlock a.mid.ok f
    have f_s := grows.fileBlock a.mid.ok f
    rw [saved.stay b (a.mid.fileBlock_small f).1 (a.mid.fileBlock_small f).2,a.files b f_t]
    exact r.stay b (v.fileBlock_small f_s).1 (v.fileBlock_small f_s).2
  · rw [saved.image,image]
    exact good.living

-- fs2_unlink has found entry K and overwritten it.
structure Hit (s t u : Mount) (x p : UInt32) (K : Nat) : Prop where
  quarter : K % 128 < 32
  replaced : Replaced t u p K (s.moved p.toNat K)
  fetched : s.Fetched u p.toNat K
  unlinked : s.Fresh p.toNat K → Unlinked t u p K

-- How fs2_unlink ends behind the checks of the victim.
inductive Ended (s t u : Mount) (x p : UInt32) (K : Nat) : Prop where
  | hit (hit : Hit s t u x p K)
  | lost (later : ¬ K % 128 < 32) (outcome : u.vol.outcome = .noFile)
  | failed (slid : Slid t u) (loud : u.disk.failed = true) (fault : ∃ n y,t.disk.trace.length ≤ n ∧ s.disk.rdFails n y = true)
      (outcome : u.vol.outcome = .diskRdErr)

theorem Ready.unlink (r : Ready s t x p) (v : s.Valid) (sound : s.disk.Sound)
    (hx : x.toNat < s.vol.hblock.nextInode.toNat) (hp : p.toNat < s.vol.hblock.nextInode.toNat)
    (dir : (s.image.node p.toNat).ftype = ftypeDir) (live : (s.image.node p.toNat).regs ≠ []) (two : 2 ≤ K)
    (at_K : (s.image.node p.toNat).links[K]? = some l) (leads : l.inode = x.toNat) :
    ∃ u,Fs2.unlink t p x = some u ∧ Ended s t u x p K := by
  have d := v.ok.dirs p.toNat (by simpa using hp) dir live
  obtain ⟨above,_,_⟩ := d.child K l two at_K
  have other : p.toNat ≠ x.toNat := by omega
  have node := r.node hx other
  have ht : p.toNat < t.vol.hblock.nextInode.toNat := by rw [r.hblock]; exact hp
  have dir₀ : (s.inode p.toNat).ftype = ftypeDir := by rw [s.image_node hp] at dir; exact dir
  have live₀ : (s.inode p.toNat).regs ≠ [] := by rw [s.image_node hp] at live; exact live
  have dir' : (t.inode p.toNat).ftype = ftypeDir := by rw [r.parent]; exact dir₀
  have live' : (t.inode p.toNat).regs ≠ [] := by rw [r.parent]; exact live₀
  have positive := d.positive
  rw [← node,t.image_node ht] at positive
  have eof : (t.inode p.toNat).eof.toNat = (s.image.node p.toNat).eof := by rw [r.parent,s.image_node hp]; rfl
  have inside : K < (t.inode p.toNat).eof.toNat := by
    rw [eof,← d.count]
    exact (List.getElem?_eq_some_iff.mp at_K).1
  have link : ∀ k,k < (t.inode p.toNat).eof.toNat →
      (s.image.node p.toNat).links[k]? = some (linkAt t.at (blocks (t.inode p.toNat).regs) k) :=
    fun k less => by rw [← node]; exact links_getElem? ht dir' live' less
  obtain ⟨u,run,searched⟩ := unlinkLoop_look r.mid x r.here ht dir' live' (t.inode p.toNat).eof.toNat
    (.refl r.mid) (Nat.zero_add _) (show t.Walk (t.inode p.toNat).regs 0 0 0 from .start positive) fun k less => by omega
  refine ⟨u,by unfold Fs2.unlink; rw [cached_inode r.here]; exact run,?_⟩
  cases searched with
  | missed slid calm outcome none =>
    refine .lost (fun quarter => none K inside quarter ?_) outcome
    have here := link K inside
    rw [at_K] at here
    rw [← leads,Option.some.inj here]
  | failed slid loud fault outcome =>
    rw [r.rdFails] at fault
    exact .failed slid loud fault outcome
  | found K' t' inside' quarter hit slid calm holds result =>
    have same : K' = K := d.unique two at_K leads (link K' inside') hit
    subst same
    have mid := slid.mid r.mid
    have inode' : t'.inode = t.inode := slid.inode
    obtain ⟨moved,fresh⟩ := moved_same (s := s) (t := t') hp (by rw [slid.hblock]; exact ht) dir₀ live₀
      (by rw [← r.parent]; exact inside') ((congrFun inode' _).trans r.parent) (by rw [slid.image]; exact node)
      (slid.xcaddr.trans r.xcaddr) (slid.xcache.trans r.xcache)
    have step := unlinkAt_spec (s := t') (p := p) (K := K') mid ((r.toDev.sound sound) |> slid.toSame.sound)
      (slid.icindex.trans r.here) (slid.placed r.placed) (by rw [slid.hblock]; exact ht) (by rw [inode']; exact dir')
      (by rw [inode']; exact live') two (by rw [inode']; exact inside')
      (by rw [inode']; exact holds)
    rw [inode',← result] at step
    rcases step with ⟨replaced,fetched,whole⟩ | ⟨slid',loud,fault,outcome⟩
    · have after := replaced.after (slid.dev calm) slid.icaddr slid.hblock slid.image slid.at_eq
      rw [moved] at after
      refine .hit ⟨quarter,after,?_,fun still => ⟨?_,whole (fresh.mpr still)⟩⟩
      · unfold Fetched at fetched ⊢
        dsimp only at fetched ⊢
        rw [inode',r.parent,moved] at fetched
        exact fetched
      · have last := last_link ht dir' live' inside'
        rw [last,r.parent]
        unfold Fresh at still
        have here := link _ (Nat.sub_lt (Nat.lt_of_le_of_lt (Nat.zero_le _) inside') Nat.one_pos)
        have there := links_getElem? hp dir₀ live₀
          (by rw [← r.parent]; exact Nat.sub_lt (Nat.lt_of_le_of_lt (Nat.zero_le _) inside') Nat.one_pos)
        rw [r.parent] at here there
        rw [Option.some.inj (here.symm.trans there),← still]
        exact after
    · rw [slid.rdFails,r.rdFails] at fault
      exact .failed (slid.trans slid') loud ⟨_,_,slid.later,fault⟩ outcome

theorem unlinkStart_ready (v : s.Valid) (sound : s.disk.Sound) (here : s.vol.icindex = x / 32) (placed : s.Placed)
    (hx : x.toNat < s.vol.hblock.nextInode.toNat) (hp : p.toNat < s.vol.hblock.nextInode.toNat)
    (dir : (s.image.node p.toNat).ftype = ftypeDir) (live : (s.image.node p.toNat).regs ≠ []) (two : 2 ≤ K)
    (at_K : (s.image.node p.toNat).links[K]? = some l) (leads : l.inode = x.toNat) :
    ∃ t,unlinkStart s x p = some t ∧ Ready s t x p ∧ (¬ x.toNat + 1 < s.vol.hblock.nextInode.toNat → Looked s t) := by
  have above := ((v.ok.dirs p.toNat (by simpa using hp) dir live).child K l two at_K).1
  have move : x < s.vol.hblock.nextInode - 1 ↔ x.toNat + 1 < s.vol.hblock.nextInode.toNat := by
    have one : (1 : UInt32).toNat = 1 := rfl
    rw [UInt32.lt_iff_toNat_lt,UInt32.toNat_sub_of_le _ _ (UInt32.le_iff_toNat_le.mpr (by omega)),one]
    omega
  unfold unlinkStart
  dsimp only
  by_cases inner : x.toNat + 1 < s.vol.hblock.nextInode.toNat
  · rw [decide_eq_true (move.mpr inner),if_pos rfl]
    obtain ⟨ok,grows,_⟩ := v.good.unlink (by simpa using hp) dir live two at_K
    rw [leads] at ok grows
    obtain ⟨t,run,ready⟩ := ready_move v sound here placed hx hp (by omega) ok grows inner
    exact ⟨t,run,ready,fun last => absurd inner last⟩
  · have still : decide (x < s.vol.hblock.nextInode - 1) = false := decide_eq_false fun less => inner (move.mp less)
    rw [still,if_neg (by simp)]
    obtain ⟨t,run,ready,looked⟩ := ready_stay v sound hp inner
    exact ⟨t,run,ready,fun _ => looked⟩

-- fs2_rm behind its checks: the entry goes, is not found although it is there, or a
-- read fails before anything has changed.
theorem removeFrom_spec (v : s.Valid) (sound : s.disk.Sound) (here : s.vol.icindex = x / 32) (placed : s.Placed)
    (hx : x.toNat < s.vol.hblock.nextInode.toNat) (hp : p.toNat < s.vol.hblock.nextInode.toNat)
    (dir : (s.image.node p.toNat).ftype = ftypeDir) (live : (s.image.node p.toNat).regs ≠ []) (two : 2 ≤ K)
    (at_K : (s.image.node p.toNat).links[K]? = some l) (leads : l.inode = x.toNat) (fresh : s.Fresh p.toNat K)
    (quiet : x.toNat + 1 < s.vol.hblock.nextInode.toNat → s.disk.Quiet) :
    ∃ s' r,removeFrom s x p = some (s',r) ∧
      ((K % 128 < 32 ∧ Removed s s' x.toNat p.toNat K ∧ r = true) ∨ (¬ K % 128 < 32 ∧ r = false) ∨
        (Halted s s' ∧ r = false)) := by
  obtain ⟨t,run,ready,looked⟩ := unlinkStart_ready v sound here placed hx hp dir live two at_K leads
  obtain ⟨u,run',ended⟩ := ready.unlink v sound hx hp dir live two at_K leads
  unfold removeFrom
  rw [run]
  simp only [Option.bind_eq_bind,Option.bind_some]
  rw [if_neg (by simp [ready.outcome]),run']
  simp only [Option.bind_some]
  cases ended with
  | hit hit =>
    have removed := ready.removed v sound hx hp dir live two at_K leads (hit.unlinked fresh)
    rw [if_neg (by simp [hit.replaced.outcome])]
    exact ⟨_,_,rfl,.inl ⟨hit.quarter,removed,by simp [removed.outcome]⟩⟩
  | lost later outcome =>
    rw [if_pos (by simp [outcome])]
    exact ⟨_,_,rfl,.inr (.inl ⟨later,rfl⟩)⟩
  | failed slid loud fault outcome =>
    obtain ⟨n,y,after,bad⟩ := fault
    rw [if_pos (by simp [outcome])]
    by_cases inner : x.toNat + 1 < s.vol.hblock.nextInode.toNat
    · have silent := quiet inner n y (Nat.le_trans ready.later after)
      rw [bad] at silent
      cases silent
    · have looked := looked inner
      exact ⟨_,_,rfl,.inr (.inr ⟨⟨(looked.trans (slid.looked looked.valid)).viewed,loud,⟨n,y,bad⟩,outcome⟩,rfl⟩)⟩

end Unlink

end Mount

namespace Image
variable {m : Image}

-- A path leads to the victim x of a remove; the directory p in which it was found
-- has it as entry K, so the path does not end at a directory itself.
structure Victim (m : Image) (path : List UInt8) (x p K : Nat) : Prop where
  found : m.resolve path = .ok (x,some p)
  other : x ≠ 0
  empty : ¬ ((m.node x).ftype = ftypeDir ∧ 2 < (m.node x).eof)
  two : 2 ≤ K
  entry : ∃ l,(m.node p).links[K]? = some l ∧ l.inode = x

theorem walk_last {d i p : Nat} {names : List (List UInt8)} (found : m.walk d names = .ok (i,p)) :
    ∃ name,m.lookup p name = .ok i := by
  induction names generalizing d with
  | nil => cases found
  | cons name rest ih =>
    unfold walk at found
    split at found
    · cases found
    · split at found
      · cases found
      · rename_i child here
        split at found
        · cases found; exact ⟨name,here⟩
        · exact ih found

theorem resolve_parent (good : m.Good) {x : Nat} {q : Option Nat} {path : List UInt8}
    (found : m.resolve path = .ok (x,q)) (other : x ≠ 0) :
    ∃ p,q = some p ∧ m.Attached p ∧ ∃ name,m.lookup p name = .ok x := by
  unfold resolve at found
  split at found
  · cases found; exact absurd rfl other
  · cases walked : m.walk 0 (components false path) with
    | error e => rw [walked] at found; cases found
    | ok r =>
      rw [walked] at found
      cases found
      exact ⟨r.2,rfl,(walk_attached good .root walked).2,walk_last walked⟩

theorem resolve_victim (good : m.Good) {x : Nat} {q : Option Nat} {path : List UInt8}
    (found : m.resolve path = .ok (x,q)) (other : x ≠ 0) (empty : ¬ ((m.node x).ftype = ftypeDir ∧ 2 < (m.node x).eof)) :
    q = some x ∨ ∃ p K,m.Attached p ∧ (m.node p).ftype = ftypeDir ∧ m.Victim path x p K := by
  obtain ⟨p,rfl,attached,name,here⟩ := resolve_parent good found other
  obtain ⟨dir,k,l,at_k,leads⟩ := lookup_link here
  have d := attached.dirOk good dir
  match k with
  | 0 =>
    rw [d.self] at at_k
    cases at_k
    exact .inl (congrArg some leads)
  | 1 =>
    rw [d.up] at at_k
    cases at_k
    have up : (m.node p).iparent = x := leads
    -- The parent of p has p as an entry, so it is not empty.
    cases attached with
    | root =>
      have := d.parent
      exact absurd (by omega) other
    | @child p' k' l' above two pdir at_k' =>
      have d' := above.dirOk good pdir
      have parent := (d'.child k' l' two at_k').2.2
      rw [up] at parent
      subst parent
      have inside := (List.getElem?_eq_some_iff.mp at_k').1
      rw [d'.count] at inside
      exact absurd ⟨pdir,by omega⟩ empty
  | k + 2 => exact .inr ⟨p,k + 2,attached,dir,found,other,empty,by omega,l,at_k,leads⟩

-- The path does not lead to a directory that could be removed as its own entry ".".
def Apart (m : Image) (path : List UInt8) : Prop :=
  ∀ x,m.resolve path = .ok (x,some x) → x = 0 ∨ ((m.node x).ftype = ftypeDir ∧ 2 < (m.node x).eof)

theorem Victim.child (good : m.Good) {path : List UInt8} {x p K : Nat} (a : m.Victim path x p K) :
    m.Attached p ∧ p < m.nodes.length ∧ (m.node p).ftype = ftypeDir ∧ (m.node p).regs ≠ [] ∧ p < x ∧ x < m.nodes.length := by
  obtain ⟨p',same,attached,name,here⟩ := resolve_parent good a.found a.other
  cases same
  obtain ⟨dir,_⟩ := lookup_link here
  obtain ⟨below,alive⟩ := attached.alive good
  obtain ⟨l,at_K,leads⟩ := a.entry
  obtain ⟨above,exist,_⟩ := (attached.dirOk good dir).child K l a.two at_K
  exact ⟨attached,below,dir,alive dir,by omega,by omega⟩

theorem Victim.rm (good : m.Good) {path : List UInt8} {x p K : Nat} (a : m.Victim path x p K) :
    m.rm path = ((m.wipe x).setNode p ((m.node p).dropLink K),.success) := by
  obtain ⟨_,below,dir,live,_,_⟩ := a.child good
  obtain ⟨l,at_K,leads⟩ := a.entry
  have d := good.dirs p below dir live
  have index : (m.node p).links.findIdx? (fun l => l.inode == x) = some K := by
    obtain ⟨inside,value⟩ := List.getElem?_eq_some_iff.mp at_K
    rw [List.findIdx?_eq_some_iff_getElem]
    refine ⟨inside,by rw [value]; simpa using leads,fun j less => ?_⟩
    intro hit
    have first : (m.node p).links[j].inode = x := by simpa using hit
    have same : j = K := d.unique a.two at_K leads (List.getElem?_eq_getElem (by omega)) first
    omega
  unfold Image.rm
  rw [a.found]
  dsimp only
  rw [if_neg a.other,if_neg a.empty,Option.getD_some,index]

end Image

namespace Mount

-- The ends of a remove. The victim may be in its directory without being found.
inductive Rm (s s' : Mount) (path : List UInt8) : Bool → Prop where
  | removed {x p K : Nat} (victim : s.image.Victim path x p K) (quarter : K % 128 < 32) (removed : Removed s s' x p K) :
      Rm s s' path true
  | lost {x p K : Nat} (victim : s.image.Victim path x p K) (later : ¬ K % 128 < 32) : Rm s s' path false
  | refused (looked : Looked s s') (calm : s'.disk.failed = s.disk.failed) (same : s.image.rm path = (s.image,s'.vol.outcome))
      (error : s'.vol.outcome ≠ .success ∧ s'.vol.outcome ≠ .diskRdErr)
      (why : ∀ x q,s.image.resolve path = .ok (x,q) →
        x = 0 ∨ ((s.image.node x).ftype = ftypeDir ∧ 2 < (s.image.node x).eof)) : Rm s s' path false
  | halted (halted : Halted s s') : Rm s s' path false

theorem Removed.looked {s t s' : Mount} {x p K : Nat} (looked : Looked s t) (calm : t.disk.failed = s.disk.failed)
    (v : s.Valid) (a : Removed t s' x p K) : Removed s s' x p K := by
  have image := looked.image v
  refine ⟨(looked.grew v calm).trans a.toGrew a.valid.ok,a.valid,?_,a.outcome⟩
  rw [a.image,image]

theorem Looked.moved {s t : Mount} {p K : Nat} (v : s.Valid) (looked : Looked s t) (h : p < s.vol.hblock.nextInode.toNat)
    (dir : (s.inode p).ftype = ftypeDir) (live : (s.inode p).regs ≠ []) (inside : K < (s.inode p).eof.toNat) :
    t.moved p K = s.moved p K ∧ (t.Fresh p K ↔ s.Fresh p K) :=
  moved_same h (by rw [looked.hblock]; exact h) dir live inside (v.same_inode looked.valid looked.toSame h)
    (by rw [looked.image v]) looked.xcaddr looked.xcache

-- The mount when fs2_rm has looked up the path and loaded the inode of the victim.
def rmLookups (s : Mount) (path : List UInt8) : Option (Mount × UInt32) := do
  let (s,x,_) ← findFile s path
  if s.vol.outcome ≠ .success then some (s,x)
  else
    let s ← getIblockC s (x / 32) false false
    some (s,x)

-- The path leads to a victim, and the mount t is the one behind its checks.
structure Sought (s t : Mount) (path : List UInt8) (x p : UInt32) (K : Nat) : Prop where
  victim : s.image.Victim path x.toNat p.toNat K
  looked : Looked s t
  calm : t.disk.failed = s.disk.failed
  here : t.vol.icindex = x / 32
  placed : t.Placed
  exist : x.toNat < s.vol.hblock.nextInode.toNat
  lookups : rmLookups s path = some (t,x) ∧ t.vol.outcome = .success

theorem rm_reaches {s : Mount} (v : s.Valid) (sound : s.disk.Sound) (path : Path) {i : Nat} {q : Option Nat}
    (found : s.image.resolve path.bytes = .ok (i,q)) (other : i ≠ 0)
    (empty : ¬ ((s.image.node i).ftype = ftypeDir ∧ 2 < (s.image.node i).eof)) :
    (∃ s',rm s path = some (s',false) ∧ unlinkCall s path.bytes = none ∧ Halted s s') ∨
    ∃ (t : Mount) (x : UInt32) (p : Option UInt32),x.toNat = i ∧ p.map UInt32.toNat = q ∧ Looked s t ∧ t.disk.failed = s.disk.failed ∧ t.vol.icindex = x / 32 ∧
      t.Placed ∧ x.toNat < s.vol.hblock.nextInode.toNat ∧ (rmLookups s path.bytes = some (t,x) ∧ t.vol.outcome = .success) ∧
      rm s path = removeFrom t x (p.getD 0) ∧ unlinkCall s path.bytes =
        (unlinkStart t x (p.getD 0)).bind fun u => if u.vol.outcome ≠ .success then none else some (u,p.getD 0,x) := by
  obtain ⟨s₁,x,p,run,result⟩ := findInode_look v sound path
  rw [rm_eq]
  unfold unlinkCall
  simp only [run,Option.bind_eq_bind,Option.bind_some]
  rw [found] at result
  rcases result with ⟨success,index,parent_eq,exist,_,_,s₂,run₂,looked,calm,success₂,here,placed,cached⟩ | stopped
  · subst index
    have nonzero : x ≠ 0 := fun zero => other (by rw [zero]; rfl)
    have fine : ¬ s₂.vol.outcome ≠ .success := by simp [success₂]
    have two : (2 : UInt32).toNat = 2 := rfl
    have empty' : ¬ ((s.inode x.toNat).ftype = ftypeDir ∧ (s.inode x.toNat).eof > 2) := by
      rw [s.image_node exist] at empty
      rintro ⟨dir,more⟩
      rw [gt_iff_lt,UInt32.lt_iff_toNat_lt,two] at more
      exact empty ⟨dir,more⟩
    rw [if_neg (by simp [success]),if_neg nonzero,if_neg (by rintro (error | zero); exacts [error success,nonzero zero]),run₂]
    simp only [Option.bind_some]
    rw [if_neg fine,cached,if_neg empty',if_neg (by rintro (error | both); exacts [fine error,empty' both])]
    refine .inr ⟨s₂,x,p,rfl,parent_eq,looked,calm,here,placed,exist,⟨?_,success₂⟩,rfl,rfl⟩
    simp only [rmLookups,run,Option.bind_eq_bind,Option.bind_some]
    rw [if_neg (by simp [success]),run₂]
    rfl
  · have error : s₁.vol.outcome ≠ .success := by rw [stopped.outcome]; decide
    rw [if_pos error,if_pos (.inl error)]
    exact .inl ⟨_,rfl,rfl,stopped.halted⟩

theorem rm_sought {s : Mount} (v : s.Valid) (sound : s.disk.Sound) (path : Path) (apart : s.image.Apart path.bytes) :
    (∃ s',rm s path = some (s',false) ∧ unlinkCall s path.bytes = none ∧ ((Looked s s' ∧ s'.disk.failed = s.disk.failed ∧
      s.image.rm path.bytes = (s.image,s'.vol.outcome) ∧ (s'.vol.outcome ≠ .success ∧ s'.vol.outcome ≠ .diskRdErr) ∧
      ∀ x q,s.image.resolve path.bytes = .ok (x,q) → x = 0 ∨ ((s.image.node x).ftype = ftypeDir ∧ 2 < (s.image.node x).eof)) ∨
      Halted s s')) ∨
    ∃ t x p K,Sought s t path.bytes x p K ∧ rm s path = removeFrom t x p ∧
      unlinkCall s path.bytes = (unlinkStart t x p).bind fun u => if u.vol.outcome ≠ .success then none else some (u,p,x) := by
  by_cases comes : ∃ i q,s.image.resolve path.bytes = .ok (i,q) ∧ i ≠ 0 ∧
      ¬ ((s.image.node i).ftype = ftypeDir ∧ 2 < (s.image.node i).eof)
  · obtain ⟨i,q,found,other,empty⟩ := comes
    rcases rm_reaches v sound path found other empty with ⟨s',run,none,halted⟩ |
      ⟨t,x,p,index,parent_eq,looked,calm,here,placed,exist,lookups,run,call⟩
    · exact .inl ⟨s',run,none,.inr halted⟩
    · subst index
      rcases Image.resolve_victim v.good found other empty with self | ⟨d,K,_,_,victim⟩
      · rw [self] at found
        rcases apart x.toNat found with zero | both
        · exact absurd zero other
        · exact absurd both empty
      · have named : (p.getD 0).toNat = d := by
          have parent' := victim.found
          rw [found] at parent'
          cases parent'
          obtain ⟨p',rfl,same⟩ := Option.map_eq_some_iff.mp parent_eq
          exact same
        subst named
        exact .inr ⟨t,x,p.getD 0,K,⟨victim,looked,calm,here,placed,exist,lookups⟩,run,call⟩
  left
  obtain ⟨s₁,x,q,run,result⟩ := findInode_look v sound path
  rw [rm_eq]
  unfold unlinkCall
  simp only [run,Option.bind_eq_bind,Option.bind_some]
  cases found : s.image.resolve path.bytes with
  | error e =>
    rw [found] at result
    have same : s.image.rm path.bytes = (s.image,e) := by unfold Image.rm; rw [found]
    rcases result with ⟨looked,calm,outcome,plain⟩ | stopped
    · have error : s₁.vol.outcome ≠ .success := by rw [outcome]; exact plain
      rw [if_pos error,if_pos (.inl error)]
      refine ⟨_,rfl,rfl,.inl ⟨looked,calm,by rw [outcome]; exact same,?_,fun x q ok => (by cases ok)⟩⟩
      rw [outcome]; exact Image.resolve_error found
    · have error : s₁.vol.outcome ≠ .success := by rw [stopped.outcome]; decide
      rw [if_pos error,if_pos (.inl error)]
      exact ⟨_,rfl,rfl,.inr stopped.halted⟩
  | ok r =>
    obtain ⟨i,parent⟩ := r
    have reach : ¬ (i ≠ 0 ∧ ¬ ((s.image.node i).ftype = ftypeDir ∧ 2 < (s.image.node i).eof)) :=
      fun both => comes ⟨i,parent,found,both.1,both.2⟩
    rw [found] at result
    rcases result with ⟨success,index,_,exist,looked₁,calm₁,s₂,run₂,looked,calm,success₂,_,_,cached⟩ | stopped
    · rw [if_neg (by simp [success])]
      subst index
      -- The two checks of the victim.
      by_cases root : x.toNat = 0
      · have zero : x = 0 := UInt32.toNat_inj.mp root
        rw [if_pos zero,if_pos (.inr zero)]
        refine ⟨_,rfl,rfl,.inl ⟨looked₁.out _,calm₁,?_,⟨nofun,nofun⟩,fun y q ok => ?_⟩⟩
        · unfold Image.rm
          rw [found]
          dsimp only
          rw [if_pos root]
          rfl
        · cases ok
          exact .inl root
      · have nonzero : x ≠ 0 := fun zero => root (by rw [zero]; rfl)
        rw [if_neg nonzero,if_neg (by rintro (error | zero); exacts [error success,nonzero zero]),run₂]
        simp only [Option.bind_some]
        have fine : ¬ s₂.vol.outcome ≠ .success := by simp [success₂]
        have two : (2 : UInt32).toNat = 2 := rfl
        have full : (s.image.node x.toNat).ftype = ftypeDir ∧ 2 < (s.image.node x.toNat).eof := by
          by_contra empty
          exact reach ⟨root,empty⟩
        have full' : (s.inode x.toNat).ftype = ftypeDir ∧ (s.inode x.toNat).eof > 2 := by
          rw [s.image_node exist] at full
          rw [gt_iff_lt,UInt32.lt_iff_toNat_lt,two]
          exact full
        rw [if_neg fine,cached,if_pos full',if_pos (.inr full')]
        refine ⟨_,rfl,rfl,.inl ⟨looked.out _,calm,?_,⟨nofun,nofun⟩,fun y q ok => ?_⟩⟩
        · unfold Image.rm
          rw [found]
          dsimp only
          rw [if_neg root,if_pos full]
          rfl
        · cases ok
          exact .inr full
    · have error : s₁.vol.outcome ≠ .success := by rw [stopped.outcome]; decide
      rw [if_pos error,if_pos (.inl error)]
      exact ⟨_,rfl,rfl,.inr stopped.halted⟩

-- What the victim and its directory are at the mount where they have been found.
structure Site (t : Mount) (x p : UInt32) (K : Nat) (l : Link) : Prop where
  exist : x.toNat < t.vol.hblock.nextInode.toNat
  below : p.toNat < t.vol.hblock.nextInode.toNat
  dir : (t.image.node p.toNat).ftype = ftypeDir
  live : (t.image.node p.toNat).regs ≠ []
  at_K : (t.image.node p.toNat).links[K]? = some l
  leads : l.inode = x.toNat

theorem Sought.site {s t : Mount} {path : List UInt8} {x p : UInt32} {K : Nat} (a : Sought s t path x p K) (v : s.Valid) :
    ∃ l,Site t x p K l ∧ (t.moved p.toNat K = s.moved p.toNat K ∧ (t.Fresh p.toNat K ↔ s.Fresh p.toNat K)) := by
  obtain ⟨_,below,dir,live,_,_⟩ := a.victim.child v.good
  obtain ⟨l,at_K,leads⟩ := a.victim.entry
  have hp : p.toNat < s.vol.hblock.nextInode.toNat := by simpa using below
  have image := a.looked.image v
  have hblock := a.looked.hblock
  refine ⟨l,⟨by rw [hblock]; exact a.exist,by rw [hblock]; exact hp,by rw [image]; exact dir,by rw [image]; exact live,
    by rw [image]; exact at_K,leads⟩,?_⟩
  have d := v.ok.dirs p.toNat below dir live
  have inside := (List.getElem?_eq_some_iff.mp at_K).1
  rw [d.count] at inside
  rw [s.image_node hp] at dir live inside
  exact a.looked.moved v hp dir live inside

theorem rm_spec {s : Mount} (v : s.Valid) (sound : s.disk.Sound) (path : Path) (apart : s.image.Apart path.bytes)
    (fresh : ∀ x p K,s.image.Victim path.bytes x p K → s.Fresh p K)
    (quiet : ∀ t x,rmLookups s path.bytes = some (t,x) → t.vol.outcome = .success →
      x.toNat + 1 < s.vol.hblock.nextInode.toNat → t.disk.Quiet) :
    ∃ s' r,rm s path = some (s',r) ∧ Rm s s' path.bytes r := by
  rcases rm_sought v sound path apart with ⟨s',run,_,⟨looked,calm,same,error,why⟩ | halted⟩ | ⟨t,x,p,K,a,run,_⟩
  · exact ⟨s',_,run,.refused looked calm same error why⟩
  · exact ⟨s',_,run,.halted halted⟩
  · obtain ⟨l,site,_,still⟩ := a.site v
    obtain ⟨s',r,run',ending⟩ := removeFrom_spec a.looked.valid (a.looked.toSame.sound sound) a.here a.placed site.exist
      site.below site.dir site.live a.victim.two site.at_K site.leads (still.mpr (fresh _ _ _ a.victim))
      fun inner => quiet t x a.lookups.1 a.lookups.2 (by rw [← a.looked.hblock]; exact inner)
    refine ⟨s',r,run.trans run',?_⟩
    rcases ending with ⟨quarter,removed,rfl⟩ | ⟨later,rfl⟩ | ⟨halted,rfl⟩
    · exact .removed a.victim quarter (removed.looked a.looked a.calm v)
    · exact .lost a.victim later
    · exact .halted ⟨a.looked.viewed.trans halted.toViewed,halted.loud,a.looked.toSame.faulty.mp halted.faulty,halted.outcome⟩

end Mount
end ArchiveOs.Fs2
