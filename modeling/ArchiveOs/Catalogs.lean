import ArchiveOs.Effects
import ArchiveOs.Finds
import ArchiveOs.Readings

-- Where the entries of a directory stand, and the text that fs2_ls makes of them.
namespace ArchiveOs.Fs2
open Extents Layout

-- The pair (i,j) of fs2_ls moves at every 128th entry.
def lsStep (rows : List (UInt32 × UInt8)) (i j : Nat) : Nat × Nat :=
  match rows[i]? with
  | none => (i,j)
  | some (_,len) =>
    let j := (j + 1) % len.toNat
    (if j = 0 then i + 1 else i,j)

def lsWalk (rows : List (UInt32 × UInt8)) : Nat → Nat × Nat
  | 0 => (0,0)
  | q + 1 => lsStep rows (lsWalk rows q).1 (lsWalk rows q).2

-- The block that it loads there.
def lsBlock (rows : List (UInt32 × UInt8)) (q : Nat) : UInt32 :=
  match rows[(lsWalk rows q).1]? with
  | none => 0
  | some (start,_) => start + UInt32.ofNat (lsWalk rows q).2

section Walk
variable {n : Inode}

theorem lsWalk_cursor (positive : ∀ r ∈ n.regs,0 < r.len) {q : Nat} (inside : q ≤ total n.regs) :
    Cursor n.regs q (lsWalk n.rows q).1 (lsWalk n.rows q).2 := by
  induction q with
  | zero => exact .start positive
  | succ q ih =>
      have before := ih (by omega)
      have less := before.more.mpr inside
      obtain ⟨start,len,row,_,region⟩ := rows_used n.rows less
      have next := before.next positive less
      have bound := before.inside less
      have same : n.regs[(lsWalk n.rows q).1] = ⟨start.toNat,len.toNat⟩ := region
      rw [same] at next bound
      unfold lsWalk lsStep
      rw [row]
      dsimp only
      rw [wrap_next bound]
      by_cases last : (lsWalk n.rows q).2 + 1 = len.toNat
      · rw [if_pos last] at next ⊢
        rw [if_pos rfl]
        exact next
      · rw [if_neg last] at next ⊢
        rw [if_neg (Nat.succ_ne_zero _)]
        exact next

theorem lsBlock_blk (positive : ∀ r ∈ n.regs,0 < r.len) {q : Nat} (inside : q < total n.regs) :
    lsBlock n.rows q = n.blk q ∧ ∃ b,(blocks n.regs)[q]? = some b ∧ n.blk q = UInt32.ofNat b := by
  have cursor := lsWalk_cursor positive (Nat.le_of_lt inside)
  have less := cursor.more.mpr inside
  have block := cursor.block less
  obtain ⟨start,len,row,_,region⟩ := rows_used n.rows less
  have same : n.regs[(lsWalk n.rows q).1] = ⟨start.toNat,len.toNat⟩ := region
  rw [same] at block
  refine ⟨?_,_,block,Inode.blk_some block⟩
  rw [Inode.blk_some block]
  unfold lsBlock
  rw [row,UInt32.ofNat_add,UInt32.ofNat_toNat]

-- The rest of a round of fs2_ls, and the next one with the pair of the walk.
def lsRound (n : Inode) (nchars : Int) (turns : Nat) (t : Mount) (k : Nat) (out : List UInt8) :
    Option (Mount × Bool × List UInt8) :=
  match lsName nchars (t.entry k).name.toList out with
  | (out,false) => some (t,false,out)
  | (out,true) =>
    if (out.length : Int) < nchars then
      lsLoop n nchars turns t (k + 1) (lsWalk n.rows ((k + 128) / 128)).1 (lsWalk n.rows ((k + 128) / 128)).2 (out ++ [0x0A])
    else some (t,false,out)

theorem lsLoop_walk (positive : ∀ r ∈ n.regs,0 < r.len) {k : Nat} (inside : k < 128 * total n.regs) (nchars : Int)
    (turns : Nat) (s : Mount) (out : List UInt8) :
    lsLoop n nchars (turns + 1) s k (lsWalk n.rows ((k + 127) / 128)).1 (lsWalk n.rows ((k + 127) / 128)).2 out =
      if k % 128 = 0 then
        if (loadDblockC s (lsBlock n.rows (k / 128)) false).vol.outcome ≠ .success then
          some (loadDblockC s (lsBlock n.rows (k / 128)) false,false,out)
        else lsRound n nchars turns (loadDblockC s (lsBlock n.rows (k / 128)) false) k out
      else lsRound n nchars turns s k out := by
  unfold lsLoop lsRound
  dsimp only
  by_cases boundary : k % 128 = 0
  · have here : (k + 127) / 128 = k / 128 := by omega
    have next : (k + 128) / 128 = k / 128 + 1 := by omega
    have cursor := lsWalk_cursor positive (q := k / 128) (by omega)
    have less := cursor.more.mpr (by omega)
    obtain ⟨start,len,row,_,region⟩ := rows_used n.rows less
    have full : len ≠ 0 := by
      intro none
      have some_ := positive _ (List.getElem_mem less)
      rw [show n.regs[(lsWalk n.rows (k / 128)).1] = ⟨start.toNat,len.toNat⟩ from region,none] at some_
      exact absurd some_ (Nat.lt_irrefl 0)
    have block : lsBlock n.rows (k / 128) = start + UInt32.ofNat (lsWalk n.rows (k / 128)).2 := by
      unfold lsBlock
      rw [row]
    have moved : lsWalk n.rows (k / 128 + 1) = (if ((lsWalk n.rows (k / 128)).2 + 1) % len.toNat = 0 then
        (lsWalk n.rows (k / 128)).1 + 1 else (lsWalk n.rows (k / 128)).1,((lsWalk n.rows (k / 128)).2 + 1) % len.toNat) := by
      show lsStep n.rows (lsWalk n.rows (k / 128)).1 (lsWalk n.rows (k / 128)).2 = _
      unfold lsStep
      rw [row]
    rw [if_pos boundary,if_pos boundary,here,next,row,block,moved]
    dsimp only
    exact congrArg (ite _ _) (if_neg full)
  · have here : (k + 127) / 128 = (k + 128) / 128 := by omega
    rw [if_neg boundary,here]
    exact (if_neg boundary).symm

end Walk

namespace Mount
variable {t t' : Mount} {p child : UInt32} {name : List UInt8}

theorem rblk_vol (t : Mount) (a : UInt32) (x : Buffer) : (rblk t a x).1.vol = t.vol := by
  unfold rblk
  rcases t.disk.rd (t.vol.blk0 + a) x with ⟨d,b⟩
  rfl

theorem loadDblockC_dcaddr {a : UInt32} {dry : Bool} (success : (loadDblockC t a dry).vol.outcome = .success) :
    (loadDblockC t a dry).vol.dcaddr = a ∧ (loadDblockC t a dry).vol.icache = t.vol.icache := by
  unfold loadDblockC at success ⊢
  split at success
  · rename_i miss
    rw [if_pos miss]
    split at success
    · rename_i yes
      rw [if_pos yes]
      exact ⟨rfl,rfl⟩
    · rename_i no
      rw [if_neg no]
      split at success
      · cases success
      · rename_i u b read
        have same := rblk_vol t a .dcache
        rw [read] at same
        have cached : u.vol.icache = t.vol.icache := congrArg Volume.icache same
        exact ⟨rfl,cached⟩
  · rename_i hit
    rw [if_neg hit]
    exact ⟨(not_not.mp hit).symm,rfl⟩

theorem saveDblockC_vol (t : Mount) : (saveDblockC t).vol.dcaddr = t.vol.dcaddr ∧ (saveDblockC t).vol.icache = t.vol.icache := by
  unfold saveDblockC wblk
  dsimp only
  rcases t.disk.wr (t.vol.blk0 + t.vol.dcaddr) .dcache (dblockLayout t.vol.dcache) with ⟨d,_ | _⟩ <;> exact ⟨rfl,rfl⟩

theorem findFreeRegion_vol {u : Mount} {len : UInt8} {b : UInt32} (run : findFreeRegion t len false = some (u,b)) :
    u.vol.icache = t.vol.icache ∧ u.vol.hblock.defaultDregLen = t.vol.hblock.defaultDregLen ∧
      (u.vol.outcome = .success → b = t.vol.hblock.nextBlock) := by
  unfold findFreeRegion at run
  split at run
  · cases run
  · dsimp only at run
    split at run
    · cases run
      exact ⟨rfl,rfl,fun wrong => (nomatch wrong)⟩
    · rw [if_neg Bool.false_ne_true] at run
      cases run
      exact ⟨rfl,rfl,fun _ => rfl⟩

-- The block in which fs2_add_dir_entry stores an entry is the one for its number.
theorem addDirEntry_block (run : addDirEntry t name p child = some t') (success : t'.vol.outcome = .success)
    (tidy : Tidy (t.cached p).rows) (fits : (t.cached p).eof.toNat ≤ 128 * total (t.cached p).regs)
    (dlen : t.vol.hblock.defaultDregLen ≠ 0) (used : t.vol.hblock.nextBlock ≠ 0) :
    ∃ b,(blocks (t'.cached p).regs)[(t.cached p).eof.toNat / 128]? = some b ∧ t'.vol.dcaddr = UInt32.ofNat b := by
  unfold addDirEntry addDirEntryFrom at run
  simp only [List.drop_zero] at run
  have scan := slotScan_eq (t.cached p).rows (t.cached p).eof 0 0 (Nat.zero_le _) (by rw [Inode.length_rows]; decide)
  have whole : (t.cached p).eof.toNat / 128 - (0 : UInt32).toNat = (t.cached p).eof.toNat / 128 := Nat.sub_zero _
  have regs : regions (t.cached p).rows = (t.cached p).regs := rfl
  rw [whole,regs] at scan
  cases at_q : (blocks (t.cached p).regs)[(t.cached p).eof.toNat / 128]? with
  | some b =>
      rw [at_q] at scan
      obtain ⟨i,m,start,len,found,row,address⟩ := scan
      have here : (t.cached p).rows.getD i (0,0) = (start,len) := by
        rw [List.getD_eq_getElem?_getD,row]
        rfl
      rw [found,Nat.zero_add] at run
      simp only [here,address] at run
      by_cases failed : (loadDblockC t (UInt32.ofNat b) false).vol.outcome ≠ .success
      · rw [if_pos failed] at run
        cases run
        exact (failed success).elim
      · rw [if_neg failed] at run
        have loaded := loadDblockC_dcaddr (not_not.mp failed)
        generalize loadDblockC t (UInt32.ofNat b) false = u at run loaded
        have kept := saveDblockC_vol (u.setEntry (t.cached p).eof.toNat ⟨child,strncpy28 name⟩)
        generalize saveDblockC (u.setEntry (t.cached p).eof.toNat ⟨child,strncpy28 name⟩) = w at run kept
        by_cases unsaved : w.vol.outcome ≠ .success
        · rw [if_pos unsaved] at run
          cases run
          exact (unsaved success).elim
        · rw [if_neg unsaved] at run
          cases run
          refine ⟨b,?_,kept.1.trans loaded.1⟩
          rw [cached_setCached]
          exact at_q
  | none =>
      rw [at_q] at scan
      rw [scan,Nat.zero_add] at run
      dsimp only at run
      by_cases many : (t.cached p).regs.length = 23
      · rw [if_pos many] at run
        cases run
        cases success
      · rw [if_neg many] at run
        cases region : findFreeRegion t t.vol.hblock.defaultDregLen false with
        | none =>
            rw [region] at run
            cases run
        | some r =>
            obtain ⟨u,b⟩ := r
            have same := findFreeRegion_vol region
            rw [region] at run
            dsimp only [Option.bind_eq_bind,Option.bind_some] at run
            have few : (t.cached p).regs.length < 23 := by
              have most := regions_length_le (t.cached p).rows
              rw [Inode.length_rows,regs] at most
              omega
            by_cases zero : b = 0
            · rw [if_pos zero] at run
              cases run
              exact (used ((same.2.2 success).symm.trans zero)).elim
            · rw [if_neg zero,if_neg (by omega),loadDblockC_dry] at run
              cases run
              rw [same.2.1] at success ⊢
              generalize shape : ({t.cached p with
                regStart := (t.cached p).regStart.setIfInBounds (t.cached p).regs.length b
                regLen := (t.cached p).regLen.setIfInBounds (t.cached p).regs.length t.vol.hblock.defaultDregLen
                eof := (t.cached p).eof + 1} : Inode) = n at success ⊢
              have kept := saveDblockC_vol ((({u.setCached p n with vol := {(u.setCached p n).vol with dcaddr := b}} :
                Mount).out .success).setEntry 0 ⟨child,strncpy28 name⟩)
              have grown := Inode.regs_set n tidy rfl few t.vol.hblock.defaultDregLen zero (by rw [← shape]) (by rw [← shape])
              have here : (saveDblockC ((({u.setCached p n with vol := {(u.setCached p n).vol with dcaddr := b}} :
                  Mount).out .success).setEntry 0 ⟨child,strncpy28 name⟩)).cached p = n := by
                unfold cached
                rw [kept.2]
                exact cached_setCached u p n
              refine ⟨b.toNat,?_,?_⟩
              · rw [here,grown.1,blocks_append]
                have full : (t.cached p).eof.toNat / 128 = (blocks (t.cached p).regs).length := by
                  have past := List.getElem?_eq_none_iff.mp at_q
                  rw [length_blocks] at past ⊢
                  omega
                rw [full,List.getElem?_append_right (Nat.le_refl _),Nat.sub_self,getElem?_blocks_cons,
                  if_pos (Nat.pos_of_ne_zero fun none => dlen (UInt8.toNat_inj.mp none)),Nat.add_zero]
              · rw [kept.1,UInt32.ofNat_toNat]
                rfl

-- A call of fs2_add_dir_entry has stored entry k in the block b, and since then the
-- directory has got regions behind its own at most.
structure StoredAt (n : Inode) (k : Nat) (b : UInt32) : Prop where
  call : ∃ t t' name p child,addDirEntry t name p child = some t' ∧ t'.vol.outcome = .success ∧
    (t.cached p).eof.toNat = k ∧ Tidy (t.cached p).rows ∧ k ≤ 128 * total (t.cached p).regs ∧
    t.vol.hblock.defaultDregLen ≠ 0 ∧ t.vol.hblock.nextBlock ≠ 0 ∧ (t'.cached p).regs <+: n.regs ∧ b = t'.vol.dcaddr

theorem StoredAt.blk {n : Inode} {k : Nat} {b : UInt32} (stored : StoredAt n k b) : b = n.blk (k / 128) := by
  obtain ⟨t,t',name,p,child,run,success,rfl,tidy,fits,dlen,used,⟨more,later⟩,rfl⟩ := stored.call
  obtain ⟨a,at_q,address⟩ := addDirEntry_block run success tidy fits dlen used
  refine address.trans (Inode.blk_some ?_).symm
  rw [← later,blocks_append,List.getElem?_append_left (List.getElem?_eq_some_iff.mp at_q).1]
  exact at_q

end Mount

-- One line for each entry.
def lines (ls : List Link) : List UInt8 := ls.flatMap fun l => l.name ++ [0x0A]

theorem length_lines (ls : List Link) : (lines ls).length = (ls.map fun l => l.name.length + 1).sum := by
  unfold lines
  rw [List.length_flatMap]
  congr 1
  apply List.map_congr_left
  intro l _
  rw [List.length_append,List.length_singleton]

theorem lsName_fits {nchars : Int} {name : List UInt8} (noNul : 0 ∉ name) {out : List UInt8}
    (fits : ((out.length + name.length : Nat) : Int) < nchars) : lsName nchars name out = (out ++ name,true) := by
  induction name generalizing out with
  | nil =>
      unfold lsName
      rw [List.append_nil]
  | cons c name ih =>
      rw [List.mem_cons,not_or] at noNul
      rw [List.length_cons] at fits
      unfold lsName
      rw [if_neg (Ne.symm noNul.1)]
      dsimp only
      rw [if_neg (by rw [List.length_append,List.length_singleton]; omega),ih noNul.2 (by
        rw [List.length_append,List.length_singleton]; omega),List.append_assoc]
      rfl

theorem lsLinks_fits {nchars : Int} {ls : List Link} (noNul : ∀ l ∈ ls,0 ∉ l.name) (out : List UInt8)
    (fits : ((out.length + (lines ls).length : Nat) : Int) < nchars) :
    lsLinks nchars ls out = (true,out ++ lines ls ++ [0]) := by
  induction ls generalizing out with
  | nil =>
      unfold lsLinks
      have room : (out.length : Int) < nchars := fits
      rw [if_pos room]
      show _ = (true,out ++ [] ++ [0])
      rw [List.append_nil]
  | cons l ls ih =>
      have split : lines (l :: ls) = l.name ++ [0x0A] ++ lines ls := rfl
      rw [split] at fits ⊢
      simp only [List.length_append,List.length_singleton] at fits
      unfold lsLinks
      rw [lsName_fits (noNul l List.mem_cons_self) (by omega)]
      dsimp only
      rw [if_pos (by rw [List.length_append]; omega),
        ih (fun l' member => noNul l' (List.mem_cons_of_mem l member)) _ (by
          simp only [List.length_append,List.length_singleton]; omega)]
      simp only [List.append_assoc]

namespace Mount
variable {s : Mount}

theorem links_noNul (s : Mount) (d : Nat) : ∀ l ∈ (s.image.node d).links,0 ∉ l.name := by
  intro l member
  obtain ⟨k,at_k⟩ := List.getElem?_of_mem member
  exact s.link_noNul at_k

theorem ls_text (v : s.Valid) (works : s.disk.Works) {path : Path} {d : Nat} {q : Option Nat}
    (found : s.image.resolve path.bytes = .ok (d,q)) (dir : (s.image.node d).ftype = ftypeDir) (nchars : Int) :
    ∃ s',ls s path nchars = some (s',lsLinks nchars (s.image.node d).links []) ∧ s'.vol.outcome = .success := by
  obtain ⟨s',r,run,ended⟩ := ls_look v works.sound path nchars fun i q' found' => by
    cases found.symm.trans found'
    exact dir
  rcases ended with ⟨_,_,value⟩ | ⟨stopped,_⟩
  · unfold Image.ls at value
    rw [found] at value
    obtain ⟨success,rfl⟩ := Prod.mk.inj value
    exact ⟨s',run,success⟩
  · exact (Works.not_faulty works stopped.faulty).elim

-- An operation leaves the entries of directory d in their places, and puts a new one
-- behind them.
structure Appends (s s' : Mount) (d : Nat) (op : Op) : Prop where
  regs : (s.inode d).regs <+: (s'.inode d).regs
  links : (s'.image.node d).links = (s.image.node d).links ∨ ∃ ftype path,op = .create ftype path ∧
    (s'.image.node d).links = (s.image.node d).links ++
      [⟨(Image.newName path.bytes).take 28,s.vol.hblock.nextInode.toNat⟩]

-- The directories of a volume from which nothing has ever been removed.
theorem listings {s : Mount} (history : History AnyOp s) {path : Path} {d : Nat} {q : Option Nat}
    (found : s.image.resolve path.bytes = .ok (d,q)) (dir : (s.image.node d).ftype = ftypeDir) :
    (∀ k,k < (s.inode d).eof.toNat → k % 128 = 0 → lsBlock (s.inode d).rows (k / 128) = (s.inode d).blk (k / 128) ∧
      ∀ b,StoredAt (s.inode d) k b → b = (s.inode d).blk (k / 128)) ∧
    (∀ (k turns : Nat) (nchars : Int) (t : Mount) (out : List UInt8),k < (s.inode d).eof.toNat →
      lsLoop (s.inode d) nchars (turns + 1) t k (lsWalk (s.inode d).rows ((k + 127) / 128)).1
        (lsWalk (s.inode d).rows ((k + 127) / 128)).2 out =
          if k % 128 = 0 then
            if (loadDblockC t (lsBlock (s.inode d).rows (k / 128)) false).vol.outcome ≠ .success then
              some (loadDblockC t (lsBlock (s.inode d).rows (k / 128)) false,false,out)
            else lsRound (s.inode d) nchars turns (loadDblockC t (lsBlock (s.inode d).rows (k / 128)) false) k out
          else lsRound (s.inode d) nchars turns t k out) ∧
    (∀ nchars : Int,((((s.image.node d).links.map fun l => l.name.length + 1).sum : Nat) : Int) < nchars →
      ∃ s',ls s path nchars = some (s',true,lines (s.image.node d).links ++ [0])) ∧
    ∀ (op : Op) (s' : Mount),op.Fits s → op.exec s = some s' → Appends s s' d op := by
  obtain ⟨v,works⟩ := history.valid
  have attached := Image.resolve_attached v.good found
  have exist := (attached.alive v.good).1
  have h : d < s.vol.hblock.nextInode.toNat := by rwa [image_length] at exist
  have shape := attached.dirOk v.good dir
  have regs : (s.image.node d).regs = (s.inode d).regs := by rw [s.image_node h]; rfl
  have eof : (s.image.node d).eof = (s.inode d).eof.toNat := by rw [s.image_node h]; rfl
  have positive := shape.positive
  have fits := shape.fits
  rw [regs] at positive fits
  rw [eof] at fits
  refine ⟨?_,?_,?_,?_⟩
  · exact fun k inside _ => ⟨(lsBlock_blk positive (by omega)).1,fun b stored => stored.blk⟩
  · exact fun k turns nchars t out inside => lsLoop_walk positive (by omega) nchars turns t out
  · intro nchars room
    obtain ⟨s',run,_⟩ := ls_text v works found dir nchars
    rw [← length_lines] at room
    rw [lsLinks_fits (s.links_noNul d) [] (by simpa using room),List.nil_append] at run
    exact ⟨s',run⟩
  · intro op s' fits run
    obtain ⟨t,run',_,_,_,image⟩ := exec_spec v works fits
    cases run.symm.trans run'
    have more := (Image.apply_extends v.good op).node d exist
    have stays : d < s'.vol.hblock.nextInode.toNat := by
      have length := (Image.apply_extends v.good op).length
      rw [← image,image_length,image_length] at length
      omega
    rw [← image] at more
    refine ⟨?_,?_⟩
    · have grown := more.regs
      rw [regs,s'.image_node stays] at grown
      exact grown
    · cases op with
      | create ftype made =>
          obtain ⟨p,_,appended⟩ := Image.create_appended v.good ftype made.bytes
          rw [image]
          by_cases here : d = p
          · subst here
            rcases appended.parent with same | new
            · exact .inl same
            · rw [image_length] at new
              exact .inr ⟨ftype,made,rfl,new⟩
          · exact .inl (congrArg Node.links (appended.others d exist here))
      | write made src nbytes cursor =>
          rw [image]
          rcases Image.write_rewritten v.good made.bytes nbytes cursor with same | ⟨i,_,_,_,_,more'⟩
          · exact .inl (congrArg (fun m => (Image.node m d).links) same)
          · by_cases here : d = i
            · subst here
              exact .inl more'.links
            · exact .inl (congrArg Node.links (more'.others d here))
      | read => exact .inl (by rw [image]; rfl)
      | isftype => exact .inl (by rw [image]; rfl)
      | ls => exact .inl (by rw [image]; rfl)

-- A file "ab" comes behind "." and "..", and its line too.
theorem listings_made : ∃ s t t' : Mount,Appends s t 0 (.create ftypeFile fileAb) ∧
    (t.image.node 0).links = (s.image.node 0).links ++ [⟨fileAb.bytes,1⟩] ∧
    ls t emptyPath 9 = some (t',true,[0x2E,0x0A,0x2E,0x2E,0x0A,0x61,0x62,0x0A,0]) := by
  obtain ⟨s,formatted,image⟩ := formats 3 passes_boot (by decide)
  have start : History AnyOp s := .format formatted
  have dir : (s.image.node 0).ftype = ftypeDir := by rw [image]; rfl
  obtain ⟨t,run,history,after⟩ := start.next (show Op.Fits s (.create ftypeFile fileAb) from trivial) trivial
  have links : (t.image.node 0).links = [⟨Image.dot,0⟩,⟨Image.dotdot,0⟩,⟨fileAb.bytes,1⟩] := by
    rw [after,image]
    decide +kernel
  have dir' : (t.image.node 0).ftype = ftypeDir := by
    rw [after,image]
    decide +kernel
  have appends := (@listings s start emptyPath 0 _ rfl dir).2.2.2 (.create ftypeFile fileAb) t trivial run
  obtain ⟨t',listed⟩ := (@listings t history emptyPath 0 _ rfl dir').2.2.1 9 (by rw [links]; decide)
  rw [links] at listed
  exact ⟨s,t,t',appends,by rw [links,image]; rfl,listed⟩

end Mount
end ArchiveOs.Fs2
