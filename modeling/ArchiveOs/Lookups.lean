import ArchiveOs.Loads

-- Directory lookups and path resolution: the code finds what the image says, or
-- stops at a failed read. Either way it changes nothing but the caches.
namespace ArchiveOs.Fs2
open Extents Layout

-- The inodes that some path leads to.
inductive Image.Attached (m : Image) : Nat → Prop where
  | root : Attached m 0
  | child {p k : Nat} {l : Link} : Attached m p → 2 ≤ k → (m.node p).ftype = ftypeDir →
      (m.node p).links[k]? = some l → Attached m l.inode

namespace Image
variable {m : Image}

theorem Attached.alive (good : m.Good) {i : Nat} (a : m.Attached i) : i < m.nodes.length ∧ (m.node i).Alive := by
  induction a with
  | root => exact ⟨good.root.1,fun _ => good.root.2.2⟩
  | child above two dir at_k ih =>
    have d := good.dirs _ ih.1 dir (ih.2 dir)
    exact ⟨(d.child _ _ two at_k).2.1,good.living _ _ _ ih.1 dir (ih.2 dir) two at_k⟩

theorem Attached.dirOk (good : m.Good) {i : Nat} (a : m.Attached i) (dir : (m.node i).ftype = ftypeDir) : DirOk m i :=
  good.dirs i (a.alive good).1 dir ((a.alive good).2 dir)

theorem Attached.parent (good : m.Good) {i : Nat} (a : m.Attached i) (dir : (m.node i).ftype = ftypeDir) :
    m.Attached (m.node i).iparent := by
  cases a with
  | root =>
    have le := (Attached.root (m := m)).dirOk good dir |>.parent
    rw [Nat.le_zero.mp le]; exact .root
  | child above two pdir at_k =>
    have d := above.dirOk good pdir
    rw [(d.child _ _ two at_k).2.2]; exact above

theorem Attached.link (good : m.Good) {i k : Nat} {l : Link} (a : m.Attached i) (dir : (m.node i).ftype = ftypeDir)
    (at_k : (m.node i).links[k]? = some l) : m.Attached l.inode := by
  have d := a.dirOk good dir
  match k with
  | 0 => rw [d.self] at at_k; cases at_k; exact a
  | 1 => rw [d.up] at at_k; cases at_k; exact a.parent good dir
  | k + 2 => exact .child a (by omega) dir at_k

theorem lookup_link {d i : Nat} {name : List UInt8} (found : m.lookup d name = .ok i) :
    (m.node d).ftype = ftypeDir ∧ ∃ (k : Nat) (l : Link), (m.node d).links[k]? = some l ∧ l.inode = i := by
  unfold lookup at found
  split at found
  · cases found
  · rename_i dir
    split at found
    · cases found
    · rename_i j present
      cases found
      unfold Node.find at present
      obtain ⟨l,hit,rfl⟩ := Option.map_eq_some_iff.mp present
      have member := List.mem_of_mem_take (List.mem_of_find?_eq_some hit)
      obtain ⟨k,at_k⟩ := List.getElem?_of_mem member
      exact ⟨not_not.mp dir,k,l,at_k,rfl⟩

theorem Attached.lookup (good : m.Good) {d i : Nat} {name : List UInt8} (a : m.Attached d)
    (found : m.lookup d name = .ok i) : m.Attached i := by
  obtain ⟨dir,k,l,at_k,rfl⟩ := lookup_link found
  exact a.link good dir at_k

theorem lookup_error {d : Nat} {name : List UInt8} {e : Outcome} (failed : m.lookup d name = .error e) :
    e = .badFtype ∨ e = .noFile := by
  unfold Image.lookup at failed
  split at failed
  · cases failed; exact .inl rfl
  · split at failed
    · cases failed; exact .inr rfl
    · cases failed

theorem walk_error {d : Nat} {names : List (List UInt8)} {e : Outcome} (failed : m.walk d names = .error e) :
    e = .badFtype ∨ e = .noFile ∨ e = .invalidPath := by
  induction names generalizing d with
  | nil => cases failed; exact .inr (.inl rfl)
  | cons name rest ih =>
    unfold walk at failed
    split at failed
    · cases failed; exact .inr (.inr rfl)
    · split at failed
      · rename_i e' missing
        cases failed
        rcases lookup_error missing with rfl | rfl
        · exact .inl rfl
        · exact .inr (.inl rfl)
      · split at failed
        · cases failed
        · exact ih failed

-- Where a walk ends, the last component has been found in an attached directory.
theorem walk_attached (good : m.Good) {d i p : Nat} {names : List (List UInt8)} (a : m.Attached d)
    (found : m.walk d names = .ok (i,p)) : m.Attached i ∧ m.Attached p := by
  induction names generalizing d with
  | nil => cases found
  | cons name rest ih =>
    unfold walk at found
    split at found
    · cases found
    · split at found
      · cases found
      · rename_i child here
        split at found
        · cases found; exact ⟨a.lookup good here,a⟩
        · exact ih (a.lookup good here) found

theorem resolve_attached (good : m.Good) {i : Nat} {p : Option Nat} {path : List UInt8}
    (found : m.resolve path = .ok (i,p)) : m.Attached i := by
  unfold resolve at found
  split at found
  · cases found; exact .root
  · cases walked : m.walk 0 (components false path) with
    | error e => rw [walked] at found; cases found
    | ok r =>
      rw [walked] at found
      cases found
      exact (walk_attached good .root walked).1

theorem resolve_error {path : List UInt8} {e : Outcome} (failed : m.resolve path = .error e) :
    e ≠ .success ∧ e ≠ .diskRdErr := by
  unfold resolve at failed
  split at failed
  · cases failed
  · cases walked : m.walk 0 (components false path) with
    | ok r => rw [walked] at failed; cases failed
    | error e' =>
      rw [walked] at failed
      cases failed
      rcases walk_error walked with rfl | rfl | rfl <;> decide

end Image

theorem strncmpEq_take {a name : List UInt8} {n : Nat} (long : n ≤ name.length) (noNul : 0 ∉ name.take n) :
    strncmpEq a name n = (name.take n).isPrefixOf (a.takeWhile (· ≠ 0)) := by
  induction n generalizing a name with
  | zero => simp [strncmpEq]
  | succ n ih =>
    cases name with
    | nil => simp at long
    | cons c rest =>
      simp only [List.take_succ_cons,List.mem_cons,not_or] at noNul
      have step := fun a => ih (a := a) (show n ≤ rest.length by simpa using long) noNul.2
      cases a with
      | nil => simp [strncmpEq,noNul.1]
      | cons x a =>
        by_cases zero : x = 0
        · subst zero; simp [strncmpEq,noNul.1]
        · have swap : (x == c) = (c == x) := BEq.comm
          have off : (x == 0) = false := beq_eq_false_iff_ne.mpr zero
          simp [strncmpEq,zero,step,swap,off,List.isPrefixOf]

namespace Mount

-- The directory cache holds block q of the directory with the regions rs.
def Holds (s : Mount) (rs : List Region) (q : Nat) : Prop :=
  ∃ b, (blocks rs)[q]? = some b ∧ s.vol.dcaddr = UInt32.ofNat b ∧ s.vol.dcache = dblockLayout.symm (s.at b)

-- A sequential walk over entries is about to visit entry k.
def Walk (s : Mount) (rs : List Region) (k i j : Nat) : Prop :=
  if k % 128 = 0 then Cursor rs (k / 128) i j else Cursor rs (k / 128 + 1) i j ∧ s.Holds rs (k / 128)

theorem Walk.next {s : Mount} {rs : List Region} {k i j : Nat} (c : Cursor rs (k / 128 + 1) i j)
    (h : s.Holds rs (k / 128)) : s.Walk rs (k + 1) i j := by
  unfold Walk
  split
  · rename_i boundary
    have : (k + 1) / 128 = k / 128 + 1 := by omega
    rw [this]; exact c
  · rename_i inside
    have : (k + 1) / 128 = k / 128 := by omega
    rw [this]; exact ⟨c,h⟩

theorem Holds.entry {s : Mount} {rs : List Region} {k : Nat} (h : s.Holds rs (k / 128)) :
    (s.entry k).link = linkAt s.at (blocks rs) k := by
  obtain ⟨b,at_q,_,content⟩ := h
  unfold Mount.entry linkAt
  rw [content,List.getD_eq_getElem?_getD,at_q]
  rfl

theorem links_getElem? {s : Mount} {d k : Nat} (h : d < s.vol.hblock.nextInode.toNat)
    (dir : (s.inode d).ftype = ftypeDir) (live : (s.inode d).regs ≠ []) (less : k < (s.inode d).eof.toNat) :
    (s.image.node d).links[k]? = some (linkAt s.at (blocks (s.inode d).regs) k) := by
  rw [s.image_node h]
  simp [node,Inode.node,dir,live,less]

theorem front {s : Mount} (v : s.Mid) {d k i j : Nat} (h : d < s.vol.hblock.nextInode.toNat)
    (dir : (s.inode d).ftype = ftypeDir) (live : (s.inode d).regs ≠ []) (less : k < (s.inode d).eof.toNat)
    (c : Cursor (s.inode d).regs (k / 128) i j) :
    ∃ start len b, (s.inode d).rows[i]? = some (start,len) ∧ start + UInt32.ofNat j = UInt32.ofNat b ∧
      (blocks (s.inode d).regs)[k / 128]? = some b ∧ s.image.DirBlock b ∧ j < len.toNat ∧
      (if j + 1 = len.toNat then Cursor (s.inode d).regs (k / 128 + 1) (i + 1) 0
        else Cursor (s.inode d).regs (k / 128 + 1) i (j + 1)) := by
  have node := s.image_node h
  have regs : (s.image.node d).regs = (s.inode d).regs := by rw [node]; rfl
  have ftype : (s.image.node d).ftype = ftypeDir := by rw [node]; exact dir
  have shape := v.ok.dirs d (by simpa using h) ftype (by rw [regs]; exact live)
  have eof : (s.image.node d).eof = (s.inode d).eof.toNat := by rw [node]; rfl
  have positive := shape.positive
  have fits := shape.fits
  rw [regs] at positive fits
  rw [eof] at fits
  have inside : i < (s.inode d).regs.length := c.more.mpr (by omega)
  obtain ⟨start,len,row,_,region⟩ := rows_used (s.inode d).rows inside
  have region' : (s.inode d).regs[i] = ⟨start.toNat,len.toNat⟩ := region
  have j_lt := c.inside inside
  have next := c.next positive inside
  have block := c.block inside
  rw [region'] at j_lt next block
  refine ⟨start,len,start.toNat + j,row,by rw [UInt32.ofNat_add,UInt32.ofNat_toNat],block,?_,j_lt,next⟩
  refine v.ok.dirBlock (i := d) ftype ?_
  rw [regs]
  exact List.mem_of_getElem? block

-- The results of a lookup that may have met a failed read.
def Found (s s' : Mount) (r : UInt32) (found : Except Outcome Nat) : Prop :=
  (s'.disk.failed = s.disk.failed ∧
    match found with
    | .ok i => r.toNat = i ∧ s'.vol.outcome = .success
    | .error e => r = minusOne ∧ s'.vol.outcome = e) ∨
  (s'.disk.failed = true ∧ s.disk.Faulty ∧ r = minusOne ∧ s'.vol.outcome = .diskRdErr)

def visibleFrom (n : Node) (name : List UInt8) (k : Nat) : Except Outcome Nat :=
  match ((n.visible.drop k).find? fun l => name.isPrefixOf l.name) with
  | some l => .ok l.inode
  | none => .error .noFile

theorem visibleFrom_end {n : Node} {k : Nat} (name : List UInt8) (far : n.visible.length ≤ k) :
    visibleFrom n name k = .error .noFile := by
  simp [visibleFrom,List.drop_eq_nil_of_le far]

theorem visibleFrom_step {n : Node} {k : Nat} {l : Link} (name : List UInt8) (at_k : n.visible[k]? = some l) :
    visibleFrom n name k = if name.isPrefixOf l.name then .ok l.inode else visibleFrom n name (k + 1) := by
  unfold visibleFrom
  have less := (List.getElem?_eq_some_iff.mp at_k).1
  have value := (List.getElem?_eq_some_iff.mp at_k).2
  rw [List.drop_eq_getElem_cons less,value,List.find?_cons]
  cases name.isPrefixOf l.name <;> simp

theorem Found.after {s s₁ s' : Mount} {r : UInt32} {found : Except Outcome Nat} (f : Found s₁ s' r found)
    (same : Same s s₁) (quiet : s₁.disk.failed = s.disk.failed) : Found s s' r found := by
  rcases f with ⟨calm,result⟩ | ⟨loud,faulty,result⟩
  · exact .inl ⟨calm.trans quiet,result⟩
  · exact .inr ⟨loud,same.faulty.mp faulty,result⟩

-- Entry k, once its block has been loaded: it is looked at if a block follows.
def findInDirNext (dinode : Inode) (name : List UInt8) (nchars n : Nat) (s : Mount) (k i j : Nat) :
    Option (Mount × UInt32) :=
  match dinode.rows[i]? with
  | none => some (s.out .noFile,minusOne)
  | some (start,_) =>
    if start = 0 then some (s.out .noFile,minusOne)
    else if strncmpEq (s.entry k).name.toList name nchars then some (s.out .success,(s.entry k).inodeIndex)
    else findInDirLoop dinode name nchars n s (k + 1) i j

theorem findInDirLoop_look {d nchars : Nat} {name : List UInt8} (long : nchars ≤ name.length)
    (noNul : 0 ∉ name.take nchars) {s : Mount} (v : s.Valid) (h : d < s.vol.hblock.nextInode.toNat)
    (dir : (s.inode d).ftype = ftypeDir) (live : (s.inode d).regs ≠ []) (n : Nat) {t : Mount} {k i j : Nat}
    (looked : Looked s t) (sameI : SameI s t) (left : k + n = (s.inode d).eof.toNat)
    (w : t.Walk (s.inode d).regs k i j) (shown : k % 128 ≠ 0 → k / 128 + 1 < total (s.inode d).regs) :
    ∃ s' r, findInDirLoop (s.inode d) name nchars n t k i j = some (s',r) ∧ Looked s s' ∧ SameI s s' ∧
      Found t s' r (visibleFrom (s.image.node d) (name.take nchars) k) := by
  have node := s.image_node h
  have regs : (s.image.node d).regs = (s.inode d).regs := by rw [node]; rfl
  have ftype : (s.image.node d).ftype = ftypeDir := by rw [node]; exact dir
  have eof : (s.image.node d).eof = (s.inode d).eof.toNat := by rw [node]; rfl
  have shape := v.ok.dirs d (by simpa using h) ftype (by rw [regs]; exact live)
  have visible : (s.image.node d).visible.length = min (128 * (total (s.inode d).regs - 1)) (s.inode d).eof.toNat := by
    simp only [Node.visible,List.length_take,regs,shape.count,eof]
  induction n generalizing t k i j with
  | zero =>
    refine ⟨_,_,rfl,looked.out _,sameI.out _,.inl ⟨rfl,?_⟩⟩
    rw [visibleFrom_end _ (by omega)]
    exact ⟨rfl,rfl⟩
  | succ n ih =>
    -- Entry k, once its block is held and is not the last one.
    have visit : ∀ (t₁ : Mount) (i' j' : Nat), Looked s t₁ → SameI s t₁ →
        Cursor (s.inode d).regs (k / 128 + 1) i' j' → t₁.Holds (s.inode d).regs (k / 128) →
        k / 128 + 1 < total (s.inode d).regs →
        ∃ s' r, (if strncmpEq (t₁.entry k).name.toList name nchars then
            some (t₁.out .success,(t₁.entry k).inodeIndex)
          else findInDirLoop (s.inode d) name nchars n t₁ (k + 1) i' j') = some (s',r) ∧ Looked s s' ∧ SameI s s' ∧
          Found t₁ s' r (visibleFrom (s.image.node d) (name.take nchars) k) := by
      intro t₁ i' j' looked₁ sameI₁ cursor holds before_last
      have entry := holds.entry
      rw [looked₁.at_eq] at entry
      have at_k : (s.image.node d).visible[k]? = some (t₁.entry k).link := by
        rw [entry,← links_getElem? h dir live (by omega)]
        simp only [Node.visible,regs]
        exact List.getElem?_take_of_lt (by omega)
      have named : (t₁.entry k).link.name = (t₁.entry k).name.toList.takeWhile (· ≠ 0) := rfl
      rw [visibleFrom_step _ at_k,strncmpEq_take long noNul,named]
      split
      · exact ⟨_,_,rfl,looked₁.out _,sameI₁.out _,.inl ⟨rfl,rfl,rfl⟩⟩
      · exact ih looked₁ sameI₁ (by omega) (.next cursor holds) (fun _ => by omega)
    unfold findInDirLoop
    dsimp only
    by_cases boundary : k % 128 = 0
    · rw [if_pos boundary]
      unfold Walk at w
      rw [if_pos boundary] at w
      obtain ⟨start,len,b,row,address,at_q,dirBlock,j_lt,next⟩ := front v.toMid h dir live (by omega) w
      rw [row]
      dsimp only
      rw [address]
      obtain ⟨looked₁,sameI₁,loaded⟩ := loadDblockC_look looked.valid (b := b) (by rw [looked.image v]; exact dirBlock)
      rcases loaded with ⟨quiet,success,held,content⟩ | ⟨loud,faulty,error⟩
      · rw [if_neg (by simpa using success)]
        have holds : (loadDblockC t (UInt32.ofNat b) false).Holds (s.inode d).regs (k / 128) :=
          ⟨b,at_q,held,by rw [looked₁.at_eq]; exact content⟩
        have ended : ∀ i' j' : Nat, Cursor (s.inode d).regs (k / 128 + 1) i' j' →
            i' = (s.inode d).regs.length → (s.image.node d).visible.length ≤ k := by
          intro i' j' cursor at_end
          have := cursor.more.not.mp (by omega)
          omega
        have walk : ∀ i' j' : Nat, Cursor (s.inode d).regs (k / 128 + 1) i' j' →
            ∃ s' r, findInDirNext (s.inode d) name nchars n (loadDblockC t (UInt32.ofNat b) false) k i' j' = some (s',r) ∧
              Looked s s' ∧ SameI s s' ∧ Found t s' r (visibleFrom (s.image.node d) (name.take nchars) k) := by
          intro i' j' cursor
          unfold findInDirNext
          rcases Nat.lt_or_eq_of_le cursor.bound with inside | at_end
          · obtain ⟨start',len',row',used,_⟩ := rows_used (s.inode d).rows inside
            rw [row']
            dsimp only
            rw [if_neg used]
            obtain ⟨s',r,run,looked',sameI',found⟩ := visit _ i' j' (looked.trans looked₁) (sameI.trans sameI₁)
              cursor holds (cursor.more.mp inside)
            exact ⟨s',r,run,looked',sameI',found.after looked₁.toSame quiet⟩
          · have stopped : Found t ((loadDblockC t (UInt32.ofNat b) false).out .noFile) minusOne
                (visibleFrom (s.image.node d) (name.take nchars) k) := by
              rw [visibleFrom_end _ (ended i' j' cursor at_end)]
              exact .inl ⟨quiet,rfl,rfl⟩
            have done := (looked.trans looked₁).out .noFile
            have still := (sameI.trans sameI₁).out .noFile
            rw [at_end]
            rcases rows_end (s.inode d).rows with gone | ⟨len',zero⟩
            · have gone' : (s.inode d).rows[(s.inode d).regs.length]? = none := gone
              rw [gone']
              exact ⟨_,_,rfl,done,still,stopped⟩
            · have zero' : (s.inode d).rows[(s.inode d).regs.length]? = some (0,len') := zero
              rw [zero']
              exact ⟨_,_,rfl,done,still,stopped⟩
        by_cases last : j + 1 = len.toNat
        · rw [if_pos last] at next ⊢
          exact walk _ _ next
        · rw [if_neg last] at next ⊢
          exact walk _ _ next
      · rw [if_pos (by simp [error])]
        exact ⟨_,_,rfl,looked.trans looked₁,sameI.trans sameI₁,.inr ⟨loud,faulty,rfl,error⟩⟩
    · rw [if_neg boundary]
      unfold Walk at w
      rw [if_neg boundary] at w
      exact visit t i j looked sameI w.1 w.2 (shown boundary)

theorem cached_inode {s : Mount} {i : UInt32} (here : s.vol.icindex = i / 32) : s.cached i = s.inode i.toNat := by
  unfold inode Mount.cached
  rw [here]
  simp

theorem itable_holds {s : Mount} (v : s.Mid) {i : Nat} (h : i < s.vol.hblock.nextInode.toNat) :
    ∃ b, s.itable[i / 32]? = some b := by
  have room := v.ok.inodes
  rw [image_length] at room
  have less : i / 32 < s.itable.length := by
    unfold itable
    rw [length_blocks]
    have : total s.image.iregs = total s.vol.hblock.regs := rfl
    omega
  exact ⟨_,List.getElem?_eq_getElem less⟩

theorem getIblockC_inode {s : Mount} (v : s.Valid) (sound : s.disk.Sound) {i : UInt32}
    (h : i.toNat < s.vol.hblock.nextInode.toNat) (saveH : Bool) :
    ∃ s', getIblockC s (i / 32) saveH false = some s' ∧ Looked s s' ∧ s'.vol.icindex = i / 32 ∧
      s'.vol.outcome = .success ∧ s'.disk.failed = s.disk.failed ∧ s'.cached i = s.inode i.toNat := by
  obtain ⟨b,found⟩ := itable_holds v.toMid h
  have found' : s.itable[(i / 32).toNat]? = some b := by rw [UInt32.toNat_div]; exact found
  obtain ⟨s',run,looked,here,success,quiet,_⟩ := getIblockC_look v sound found' saveH
  refine ⟨s',run,looked,here,success,quiet,?_⟩
  rw [cached_inode here,v.same_inode looked.valid looked.toSame h]

theorem findInDirR_look {s : Mount} (v : s.Valid) (sound : s.disk.Sound) {diindex : UInt32}
    (a : s.image.Attached diindex.toNat) {name : List UInt8} {nchars : Nat} (long : nchars ≤ name.length)
    (noNul : 0 ∉ name.take nchars) :
    ∃ s' r, findInDirR s diindex name nchars = some (s',r) ∧ Looked s s' ∧ s'.vol.icindex = diindex / 32 ∧
      Found s s' r (s.image.lookup diindex.toNat (name.take nchars)) := by
  have alive := a.alive v.good
  have h : diindex.toNat < s.vol.hblock.nextInode.toNat := by simpa using alive.1
  obtain ⟨s₁,run,looked,here,success,quiet,cached⟩ := getIblockC_inode v sound h false
  have node := s.image_node h
  have ftype : (s.image.node diindex.toNat).ftype = (s.inode diindex.toNat).ftype := by rw [node]; rfl
  unfold findInDirR
  rw [run]
  simp only [Option.bind_eq_bind,Option.bind_some]
  rw [if_neg (by simp [success]),cached]
  by_cases dir : (s.inode diindex.toNat).ftype = ftypeDir
  · rw [if_neg (by simp [dir])]
    have live : (s.inode diindex.toNat).regs ≠ [] := by
      have := alive.2 (by rw [ftype]; exact dir)
      rwa [node] at this
    have inode₁ := v.same_inode looked.valid looked.toSame h
    have shape := v.ok.dirs _ alive.1 (by rw [ftype]; exact dir) (by rw [node]; exact live)
    have start : Cursor (s.inode diindex.toNat).regs 0 0 0 := by
      have positive := shape.positive
      rw [node] at positive
      exact .start positive
    obtain ⟨s',r,run',looked',sameI,found⟩ := findInDirLoop_look (d := diindex.toNat) long noNul looked.valid
      (by rw [looked.hblock]; exact h) (by rw [inode₁]; exact dir) (by rw [inode₁]; exact live)
      (s.inode diindex.toNat).eof.toNat (t := s₁) (k := 0) (i := 0) (j := 0) (.refl looked.valid) (.refl s₁)
      (by rw [inode₁]; omega) (by rw [inode₁]; exact start) (by omega)
    rw [inode₁,looked.image v] at *
    refine ⟨s',r,run',looked.trans looked',sameI.icindex.trans here,?_⟩
    have whole : s.image.lookup diindex.toNat (name.take nchars) =
        visibleFrom (s.image.node diindex.toNat) (name.take nchars) 0 := by
      unfold Image.lookup visibleFrom Node.find
      rw [if_neg (by rw [ftype]; simp [dir]),List.drop_zero]
      cases (s.image.node diindex.toNat).visible.find? _ <;> rfl
    rw [whole]
    exact found.after looked.toSame quiet
  · rw [if_pos (by simpa using dir)]
    refine ⟨_,_,rfl,looked.out _,here,.inl ⟨quiet,?_⟩⟩
    unfold Image.lookup
    rw [if_pos (by rw [ftype]; exact dir)]
    exact ⟨rfl,rfl⟩

end Mount

theorem components_slash (path : List UInt8) :
    components true path = components false (path.dropWhile (· = slash)) := by
  induction path with
  | nil => rfl
  | cons c rest ih =>
    by_cases h : c = slash
    · simp [components,h,ih]
    · simp [components,h]

theorem components_ne_nil (b : Bool) (path : List UInt8) : components b path ≠ [] := by
  induction path generalizing b with
  | nil => simp [components]
  | cons c rest ih =>
    by_cases h : c = slash
    · cases b <;> simp [components,h,ih]
    · cases b
      all_goals
        simp only [components,h,if_false]
        cases components false rest <;> simp [consHead]

theorem components_step (cursor : List UInt8) :
    components false cursor = cursor.takeWhile (· ≠ slash) ::
      (match cursor.dropWhile (· ≠ slash) with
      | [] => []
      | c :: rest => components false ((c :: rest).dropWhile (· = slash))) := by
  induction cursor with
  | nil => rfl
  | cons c rest ih =>
    by_cases h : c = slash
    · subst h
      simp [components,components_slash]
    · simp only [components,h,if_false]
      rw [ih]
      simp [consHead,h]

namespace Mount

-- The results of resolving a path.
def Resolved (s s' : Mount) (r : UInt32) (p : Option UInt32) (found : Except Outcome (Nat × Option Nat)) : Prop :=
  (s'.disk.failed = s.disk.failed ∧
    match found with
    | .ok (i,q) => r.toNat = i ∧ p.map UInt32.toNat = q ∧ s'.vol.outcome = .success
    | .error e => r = minusOne ∧ p = none ∧ s'.vol.outcome = e) ∨
  (s'.disk.failed = true ∧ s.disk.Faulty ∧ r = minusOne ∧ p = none ∧ s'.vol.outcome = .diskRdErr)

theorem Resolved.after {s s₁ s' : Mount} {r : UInt32} {p : Option UInt32}
    {found : Except Outcome (Nat × Option Nat)} (f : Resolved s₁ s' r p found)
    (same : Same s s₁) (quiet : s₁.disk.failed = s.disk.failed) : Resolved s s' r p found := by
  rcases f with ⟨calm,result⟩ | ⟨loud,faulty,result⟩
  · exact .inl ⟨calm.trans quiet,result⟩
  · exact .inr ⟨loud,same.faulty.mp faulty,result⟩

theorem nextInode_small {s : Mount} (v : s.Valid) : s.vol.hblock.nextInode.toNat ≤ 6528000 := by
  have room := v.ok.inodes
  rw [image_length] at room
  have : total s.image.iregs = s.itable.length := by unfold itable; rw [length_blocks]; rfl
  have := s.itable_small
  omega

-- The inode cache holds a block of the inode table.
def Placed (s : Mount) : Prop := s.vol.icindex.toNat < s.itable.length

theorem Placed.inode {s s' : Mount} (v : s.Valid) (same : Same s s') {i : UInt32}
    (h : i.toNat < s.vol.hblock.nextInode.toNat) (here : s'.vol.icindex = i / 32) : s'.Placed := by
  obtain ⟨b,found⟩ := itable_holds v.toMid h
  unfold Placed
  rw [same.itable_eq,here,UInt32.toNat_div]
  exact (List.getElem?_eq_some_iff.mp found).1

theorem findFileLoop_look {s : Mount} (v : s.Valid) (sound : s.disk.Sound) (cursor : List UInt8)
    (noNul : 0 ∉ cursor) (parent : UInt32) (a : s.image.Attached parent.toNat) (placed : s.Placed) :
    ∃ s' r p, findFileLoop s parent cursor = some (s',r,p) ∧ Looked s s' ∧ s'.Placed ∧
      Resolved s s' r p ((s.image.walk parent.toNat (components false cursor)).map fun x => (x.1,some x.2)) := by
  induction size : cursor.length using Nat.strongRecOn generalizing cursor s parent with
  | ind size ih =>
    have name_take : cursor.take (cursor.takeWhile (· ≠ slash)).length = cursor.takeWhile (· ≠ slash) :=
      List.prefix_iff_eq_take.mp (List.takeWhile_prefix _) |>.symm
    have long : (cursor.takeWhile (· ≠ slash)).length ≤ cursor.length := (List.takeWhile_prefix _).length_le
    have clean : 0 ∉ cursor.take (cursor.takeWhile (· ≠ slash)).length :=
      fun member => noNul (List.mem_of_mem_take member)
    rw [findFileLoop,components_step,Image.walk]
    by_cases too_long : (cursor.takeWhile (· ≠ slash)).length > 28
    · rw [if_pos too_long,if_pos too_long]
      exact ⟨_,_,_,rfl,(Looked.refl v).out _,placed,.inl ⟨rfl,rfl,rfl,rfl⟩⟩
    · rw [if_neg too_long,if_neg too_long]
      obtain ⟨s₁,child,run,looked,here,found⟩ := findInDirR_look v sound a long clean
      have placed₁ := Placed.inode v looked.toSame (by simpa using (a.alive v.good).1) here
      rw [name_take] at found
      rw [run]
      dsimp only
      rcases found with ⟨quiet,result⟩ | ⟨loud,faulty,none,error⟩
      · cases hit : s.image.lookup parent.toNat (cursor.takeWhile (· ≠ slash)) with
        | error e =>
          rw [hit] at result
          rw [if_pos result.1]
          exact ⟨_,_,_,rfl,looked,placed₁,.inl ⟨quiet,rfl,rfl,result.2⟩⟩
        | ok i =>
          rw [hit] at result
          obtain ⟨child_eq,success⟩ := result
          have attached : s.image.Attached child.toNat := by rw [child_eq]; exact a.lookup v.good hit
          have exist := (attached.alive v.good).1
          rw [image_length] at exist
          have ne : child ≠ minusOne := by
            intro equal
            have top : minusOne.toNat = 4294967295 := rfl
            have := nextInode_small v
            rw [equal] at exist
            omega
          rw [if_neg ne]
          split
          · rename_i ending
            rw [ending]
            dsimp only
            refine ⟨_,_,_,rfl,looked.out _,placed₁,.inl ⟨quiet,?_⟩⟩
            exact ⟨child_eq,rfl,rfl⟩
          · rename_i c rest more
            rw [more]
            dsimp only
            rw [if_neg (components_ne_nil _ _)]
            have shorter := walk_shorter cursor rest c more
            have tail_clean : 0 ∉ (c :: rest).dropWhile (· = slash) := by
              intro member
              have := (List.dropWhile_suffix _).subset member
              rw [← more] at this
              exact noNul ((List.dropWhile_suffix _).subset this)
            obtain ⟨s',r,p,run',looked',placed',result⟩ := ih _ (by omega) looked.valid (looked.toSame.sound sound) _
              tail_clean child (by rw [looked.image v]; exact attached) placed₁ rfl
            rw [looked.image v,child_eq] at result
            exact ⟨s',r,p,run',looked.trans looked',placed',result.after looked.toSame quiet⟩
      · rw [if_pos none]
        exact ⟨_,_,_,rfl,looked,placed₁,.inr ⟨loud,faulty,rfl,rfl,error⟩⟩

theorem findFile_look {s : Mount} (v : s.Valid) (sound : s.disk.Sound) (path : List UInt8) (noNul : 0 ∉ path) :
    ∃ s' r p, findFile s path = some (s',r,p) ∧ Looked s s' ∧ (path ≠ [] → s'.Placed) ∧
      Resolved s s' r p (s.image.resolve path) := by
  unfold findFile Image.resolve
  by_cases empty : path = []
  · rw [if_pos empty,if_pos empty]
    exact ⟨_,_,_,rfl,(Looked.refl v).out _,fun more => absurd empty more,.inl ⟨rfl,rfl,rfl,rfl⟩⟩
  · rw [if_neg empty,if_neg empty]
    have first : (0 : UInt32).toNat < s.vol.hblock.nextInode.toNat := by simpa using v.ok.root.1
    obtain ⟨s₁,run,looked,here,_,quiet,_⟩ := getIblockC_inode v sound first false
    obtain ⟨s',r,p,run',looked',placed,result⟩ := findFileLoop_look looked.valid (looked.toSame.sound sound) path noNul
      0 .root (Placed.inode v looked.toSame first here)
    rw [looked.image v] at result
    have zero : (0 : UInt32) / 32 = 0 := by decide
    rw [zero] at run
    rw [run]
    exact ⟨s',r,p,run',looked.trans looked',fun _ => placed,result.after looked.toSame quiet⟩

end Mount
end ArchiveOs.Fs2
