import ArchiveOs.Catalogs
import ArchiveOs.Growths

-- Where fs2_ls stores what it lists, and what it makes of a file.
namespace ArchiveOs.Fs2
open Extents Layout

-- The bytes of these entries, each with its line break.
def lineBytes (ls : List Link) : Nat := (ls.map fun l => l.name.length + 1).sum

section Links
variable {nchars : Int} {ls : List Link} {out : List UInt8}

theorem lineBytes_cons (l : Link) (ls : List Link) : lineBytes (l :: ls) = l.name.length + 1 + lineBytes ls := rfl

theorem lsLinks_complete (noNul : ∀ l ∈ ls,0 ∉ l.name) (room : (out.length : Int) ≤ nchars) :
    (lsLinks nchars ls out).1 = true ↔ ((out.length + lineBytes ls : Nat) : Int) < nchars := by
  induction ls generalizing out with
  | nil =>
      show (if (out.length : Int) < nchars then (true,out ++ [0]) else (false,out)).1 = true ↔ (out.length : Int) < nchars
      split <;> simp [*]
  | cons l ls ih =>
      have rest : ∀ l' ∈ ls,0 ∉ l'.name := fun l' member => noNul l' (List.mem_cons_of_mem l member)
      unfold lsLinks
      rw [lineBytes_cons]
      rcases lsName_cases (noNul l List.mem_cons_self) room with ⟨stored,_⟩ | ⟨out',cut,_,long,_⟩
      · rw [stored]
        dsimp only
        by_cases more : ((out ++ l.name).length : Int) < nchars
        · have line : (out ++ l.name ++ [0x0A]).length = out.length + (l.name.length + 1) := by simp
          rw [if_pos more,ih rest (by rw [line]; rw [List.length_append] at more; omega),line,Nat.add_assoc]
        · rw [if_neg more]
          rw [List.length_append] at more
          exact ⟨fun wrong => (by cases wrong),fun fits => absurd fits (by omega)⟩
      · rw [cut]
        exact ⟨fun wrong => (by cases wrong),fun fits => absurd fits (by omega)⟩

theorem spare_behind {len : Nat} (behind : nchars < len) : Spare nchars len ls := by
  induction ls generalizing len with
  | nil => trivial
  | cons l ls ih => exact ⟨fun full => absurd behind (by omega),ih (by omega)⟩

theorem lsLinks_inside (noNul : ∀ l ∈ ls,0 ∉ l.name) (room : (out.length : Int) ≤ nchars) :
    ((lsLinks nchars ls out).2.length : Int) ≤ nchars ↔ Spare nchars out.length ls := by
  induction ls generalizing out with
  | nil =>
      show ((if (out.length : Int) < nchars then (true,out ++ [0]) else (false,out)).2.length : Int) ≤ nchars ↔ True
      split
      · rw [List.length_append,List.length_singleton]
        exact ⟨fun _ => trivial,fun _ => by omega⟩
      · exact ⟨fun _ => trivial,fun _ => room⟩
  | cons l ls ih =>
      have rest : ∀ l' ∈ ls,0 ∉ l'.name := fun l' member => noNul l' (List.mem_cons_of_mem l member)
      unfold lsLinks Spare
      rcases lsName_cases (noNul l List.mem_cons_self) room with ⟨stored,fits⟩ | ⟨out',cut,named,long,length⟩
      · rw [stored]
        dsimp only
        have first : (out.length : Int) = nchars → l.name = [] := fun full => fits.resolve_right (by omega)
        by_cases more : ((out ++ l.name).length : Int) < nchars
        · have line : (out ++ l.name ++ [0x0A]).length = out.length + l.name.length + 1 := by simp [Nat.add_assoc]
          rw [if_pos more,ih rest (by rw [line]; rw [List.length_append] at more; omega),line]
          exact ⟨fun spare => ⟨first,spare⟩,And.right⟩
        · -- The buffer is full behind an empty name: no later name begins at its end.
          rw [if_neg more]
          rw [List.length_append] at more ⊢
          have empty : l.name = [] := fits.resolve_right (by omega)
          rw [empty,List.length_nil]
          refine ⟨fun _ => ⟨fun _ => rfl,?_⟩,fun _ => by omega⟩
          rw [empty,List.length_nil] at more
          exact spare_behind (by omega)
      · rw [cut,length]
        constructor
        · intro inside
          refine ⟨fun full => absurd inside (by rw [if_pos full]; omega),spare_behind (by omega)⟩
        · rintro ⟨first,_⟩
          rw [if_neg fun full => named (first full)]

-- No name begins where the lines before it have filled the buffer.
def Uneven (nchars : Int) (ls : List Link) : Prop :=
  ∀ (k : Nat) (l : Link),ls[k]? = some l → l.name ≠ [] → ((lineBytes (ls.take k) : Nat) : Int) ≠ nchars

theorem spare_iff (len : Nat) : Spare nchars len ls ↔
    ∀ (k : Nat) (l : Link),ls[k]? = some l → l.name ≠ [] → ((len + lineBytes (ls.take k) : Nat) : Int) ≠ nchars := by
  induction ls generalizing len with
  | nil => exact ⟨fun _ _ _ at_k => (by cases at_k),fun _ => trivial⟩
  | cons l ls ih =>
      unfold Spare
      rw [ih]
      constructor
      · rintro ⟨first,rest⟩ k l' at_k named
        cases k with
        | zero =>
            cases at_k
            exact fun full => named (first full)
        | succ k =>
            rw [List.take_succ_cons,lineBytes_cons]
            have far := rest k l' at_k named
            rwa [Nat.add_assoc,Nat.add_assoc,← Nat.add_assoc l.name.length] at far
      · intro all
        refine ⟨fun full => ?_,fun k l' at_k named => ?_⟩
        · by_contra named
          exact all 0 l rfl named full
        · have far := all (k + 1) l' at_k named
          rw [List.take_succ_cons,lineBytes_cons] at far
          rwa [Nat.add_assoc,Nat.add_assoc,← Nat.add_assoc l.name.length]

theorem uneven_iff : Uneven nchars ls ↔ Spare nchars 0 ls := by
  rw [spare_iff]
  simp only [Nat.zero_add]
  rfl

end Links

namespace Mount
variable {s : Mount} {path : Path} {d : Nat} {q : Option Nat} {nchars : Int}

-- fs2_ls stores inside of the buffer, and is true when the list and its NUL fit.
def ListsInside (s : Mount) (path : Path) (d : Nat) (nchars : Int) : Prop :=
  ∃ s' r,ls s path nchars = some (s',r) ∧ (r.2.length : Int) ≤ nchars ∧
    (r.1 = true ↔ ((lineBytes (s.image.node d).links : Nat) : Int) < nchars)

theorem lists_exact (v : s.Valid) (works : s.disk.Works) (found : s.image.resolve path.bytes = .ok (d,q))
    (dir : (s.image.node d).ftype = ftypeDir) (natural : 0 ≤ nchars) :
    s.ListsInside path d nchars ↔ Uneven nchars (s.image.node d).links := by
  obtain ⟨s',run,_⟩ := ls_text v works found dir nchars
  have noNul := s.links_noNul d
  have inside := @lsLinks_inside nchars _ [] noNul natural
  have complete := @lsLinks_complete nchars _ [] noNul natural
  rw [List.length_nil,Nat.zero_add] at complete
  rw [uneven_iff]
  constructor
  · rintro ⟨t,r,run',stores,_⟩
    cases run.symm.trans run'
    exact inside.mp stores
  · intro spare
    exact ⟨s',_,run,inside.mpr spare,complete⟩

-- The condition is the same when a read fails on the way.
theorem ls_inside_iff (v : s.Valid) (sound : s.disk.Sound) (found : s.image.resolve path.bytes = .ok (d,q))
    (dir : (s.image.node d).ftype = ftypeDir) (natural : 0 ≤ nchars) :
    (Uneven nchars (s.image.node d).links → ∃ s' r,ls s path nchars = some (s',r) ∧ (r.2.length : Int) ≤ nchars) ∧
    (s.disk.Works → (s.ListsInside path d nchars ↔ Uneven nchars (s.image.node d).links)) := by
  refine ⟨fun uneven => ?_,fun works => lists_exact v works found dir natural⟩
  have spare := uneven_iff.mp uneven
  obtain ⟨s',r,run,ended⟩ := ls_look v sound path nchars fun i q' found' => by
    cases found.symm.trans found'
    exact dir
  refine ⟨s',r,run,?_⟩
  rcases ended with ⟨_,_,value⟩ | ⟨_,_,inside⟩
  · unfold Image.ls at value
    rw [found] at value
    obtain ⟨_,rfl⟩ := Prod.mk.inj value
    exact (@lsLinks_inside nchars _ [] (s.links_noNul d) natural).mpr spare
  · exact inside d q found natural spare

-- A buffer of two bytes for "." and "..": the name ".." begins behind its end.
theorem ls_overruns : ¬ ∀ (s : Mount) (path : Path) (d : Nat) (q : Option Nat) (nchars : Int),History AnyOp s →
    s.image.resolve path.bytes = .ok (d,q) → (s.image.node d).ftype = ftypeDir → 0 ≤ nchars →
    s.ListsInside path d nchars := by
  intro all
  obtain ⟨s,formatted,image⟩ := formats 3 passes_boot (by decide)
  have found : s.image.resolve emptyPath.bytes = .ok (0,none) := rfl
  have dir : (s.image.node 0).ftype = ftypeDir := by rw [image]; rfl
  have links : (s.image.node 0).links = [⟨Image.dot,0⟩,⟨Image.dotdot,0⟩] := by rw [image]; rfl
  have inside := all s emptyPath 0 none 2 (.format formatted) found dir (by decide)
  have uneven := (lists_exact formatted.valid.1 formatted.valid.2 found dir (by decide)).mp inside
  rw [links] at uneven
  exact uneven 1 ⟨Image.dotdot,0⟩ rfl (by decide) (by decide)

-- Of the name of a file "ab" only the first character has room.
theorem ls_inside_cut : ∃ s : Mount,History AnyOp s ∧ (s.image.node 0).links[2]? = some ⟨fileAb.bytes,1⟩ ∧
    s.ListsInside emptyPath 0 6 := by
  obtain ⟨s,formatted,image⟩ := formats 3 passes_boot (by decide)
  obtain ⟨t,_,history,after⟩ := (History.format formatted : History AnyOp s).next
    (show Op.Fits s (.create ftypeFile fileAb) from trivial) trivial
  rw [image] at after
  have found : t.image.resolve emptyPath.bytes = .ok (0,none) := rfl
  have dir : (t.image.node 0).ftype = ftypeDir := by
    rw [after]
    decide +kernel
  have links : (t.image.node 0).links = [⟨Image.dot,0⟩,⟨Image.dotdot,0⟩,⟨fileAb.bytes,1⟩] := by
    rw [after]
    decide +kernel
  obtain ⟨v,works⟩ := history.valid
  refine ⟨t,history,by rw [links]; rfl,((ls_inside_iff v works.sound found dir (by decide)).2 works).mpr ?_⟩
  rw [links,uneven_iff]
  exact ⟨by decide,by decide,by decide,trivial⟩

section Files
variable {i : Nat}

-- fs2_ls comes back with false and without a byte.
def RefusesList (s : Mount) (path : Path) (nchars : Int) : Prop := ∃ s',ls s path nchars = some (s',false,[])

-- The file is empty, or what stands where a directory would have its first entry is
-- one without a name.
def Nameless (s : Mount) (n : Inode) : Prop :=
  n.eof = 0 ∨ ∃ start len,n.rows[0]? = some (start,len) ∧ len ≠ 0 ∧
    ((dblockLayout.symm (s.at start.toNat)).get ⟨0,dslot_pos⟩).link.name = []

theorem loadDblockC_success (works : s.disk.Works) (a : UInt32) : (loadDblockC s a false).vol.outcome = .success := by
  unfold loadDblockC
  by_cases miss : a ≠ s.vol.dcaddr
  · rw [if_pos miss,if_neg (by decide),rblk_ok (works.reads ..)]
    rfl
  · rw [if_neg miss]
    rfl

theorem loadDblockC_content (v : s.Mid) (works : s.disk.Works) {a : UInt32} (real : a ≠ minusOne) :
    (loadDblockC s a false).vol.dcache = dblockLayout.symm (s.at a.toNat) := by
  have here : UInt32.ofNat a.toNat = a := UInt32.ofNat_toNat ..
  unfold loadDblockC
  by_cases miss : a ≠ s.vol.dcaddr
  · rw [if_pos miss,if_neg (by decide),rblk_ok (works.reads ..)]
    show dblockLayout.symm (s.disk.blk (s.vol.blk0 + a)) = _
    unfold Mount.at
    rw [here]
  · rw [if_neg miss]
    have held := not_not.mp miss
    show s.vol.dcache = _
    rcases v.dclean with none | ⟨_,right⟩
    · exact absurd (held.trans none) real
    · rw [right,held]

theorem lsName_extends (nchars : Int) (name out : List UInt8) : out <+: (lsName nchars name out).1 := by
  induction name generalizing out with
  | nil => exact List.prefix_refl _
  | cons c name ih =>
      unfold lsName
      split
      · exact List.prefix_refl _
      · dsimp only
        split
        · exact List.prefix_append ..
        · exact (List.prefix_append out [c]).trans (ih _)

theorem lsName_stores {nchars : Int} {name out out' : List UInt8} {b : Bool} (named : lsName nchars name out = (out',b)) :
    out <+: out' := by
  have stored := lsName_extends nchars name out
  rwa [named] at stored

theorem lsLoop_extends {n : Inode} {nchars : Int} (turns : Nat) {t t' : Mount} {k i j : Nat} {out : List UInt8}
    {r : Bool × List UInt8} (run : lsLoop n nchars turns t k i j out = some (t',r)) : out <+: r.2 := by
  induction turns generalizing t k i j out with
  | zero =>
      unfold lsLoop at run
      split at run
      · cases run
        exact List.prefix_append ..
      · cases run
        exact List.prefix_refl _
  | succ turns ih =>
      -- A name that is stored as a whole is followed by the rest of the loop, or by nothing.
      have rest : ∀ {t₁ : Mount} {i' j' : Nat} {out' : List UInt8},out <+: out' →
          (if (out'.length : Int) < nchars then lsLoop n nchars turns t₁ (k + 1) i' j' (out' ++ [0x0A])
            else some (t₁,false,out')) = some (t',r) → out <+: r.2 := by
        intro t₁ i' j' out' stored run
        split at run
        · exact stored.trans ((List.prefix_append ..).trans (ih run))
        · cases run
          exact stored
      unfold lsLoop at run
      dsimp only at run
      split at run
      · split at run
        · cases run
        · split at run
          · cases run
            exact List.prefix_refl _
          · split at run
            · cases run
            · split at run
              next named =>
                cases run
                exact lsName_stores named
              next named => exact rest (lsName_stores named) run
      · split at run
        next named =>
          cases run
          exact lsName_stores named
        next named => exact rest (lsName_stores named) run

-- The first region of an inode that counts is not at the end of the address space.
theorem first_real (v : s.Mid) (h : i < s.vol.hblock.nextInode.toNat) {start : UInt32} {len : UInt8}
    (row : (s.inode i).rows[0]? = some (start,len)) (full : len ≠ 0) : start ≠ minusOne := by
  intro last
  have used : start ≠ 0 := by rw [last]; decide
  have region := List.mem_of_getElem? (regions_row (v.itidy i h) row used)
  have positive : 0 < len.toNat := Nat.pos_of_ne_zero fun zero => full (UInt8.toNat_inj.mp zero)
  have own : (⟨start.toNat,len.toNat⟩ : Region) ∈ s.image.own (some i) := by
    show _ ∈ (s.image.node i).regs
    rw [s.image_node h]
    exact region
  have bounds := (v.ok.packed.bounds own positive).2
  have upper := v.ok.upper
  have room := v.ok.room
  have top : minusOne.toNat = 4294967295 := rfl
  rw [last] at bounds
  dsimp only at bounds
  omega

-- The loop of fs2_ls over the bytes of a file ends in its first round, or in none.
theorem lsLoop_file (v : s.Mid) (works : s.disk.Works) (h : i < s.vol.hblock.nextInode.toNat) :
    (∃ s',lsLoop (s.inode i) nchars (s.inode i).eof.toNat s 0 0 0 [] = some (s',false,[])) ↔
      nchars ≤ 0 ∧ s.Nameless (s.inode i) := by
  unfold Nameless
  by_cases empty : (s.inode i).eof = 0
  · rw [empty]
    show (∃ s',(if (0 : Int) < nchars then some (s.out .success,true,[0]) else some (s,false,[])) = some (s',false,[])) ↔ _
    by_cases more : 0 < nchars
    · rw [if_pos more]
      constructor
      · rintro ⟨_,wrong⟩
        cases wrong
      · exact fun low => absurd more (not_lt.mpr low.1)
    · rw [if_neg more]
      exact ⟨fun _ => ⟨not_lt.mp more,.inl rfl⟩,fun _ => ⟨s,rfl⟩⟩
  obtain ⟨n,count⟩ : ∃ n,(s.inode i).eof.toNat = n + 1 :=
    Nat.exists_eq_succ_of_ne_zero fun zero => empty (UInt32.toNat_inj.mp zero)
  have inside : 0 < (s.inode i).rows.length := by simp [Inode.rows]
  obtain ⟨⟨start,len⟩,row⟩ : ∃ r,(s.inode i).rows[0]? = some r := ⟨_,List.getElem?_eq_getElem inside⟩
  rw [count]
  unfold lsLoop
  dsimp only
  rw [if_pos (Nat.zero_mod _),row]
  dsimp only
  have base : start + UInt32.ofNat 0 = start := UInt32.add_zero start
  rw [base]
  rw [if_neg (by simp [loadDblockC_success works])]
  by_cases full : len = 0
  · -- The counter is divided by the length.
    rw [if_pos full]
    constructor
    · rintro ⟨_,wrong⟩
      cases wrong
    · rintro ⟨_,none | ⟨start',len',row',positive,_⟩⟩
      · exact absurd none empty
      · cases row'
        exact absurd full positive
  rw [if_neg full]
  have first : ((loadDblockC s start false).entry 0).link = ((dblockLayout.symm (s.at start.toNat)).get ⟨0,dslot_pos⟩).link := by
    rw [← loadDblockC_content v works (first_real v h row full)]
    rfl
  have listed : ((s.inode i).eof = 0 ∨ ∃ start' len',some (start,len) = some (start',len') ∧ len' ≠ 0 ∧
      ((dblockLayout.symm (s.at start'.toNat)).get ⟨0,dslot_pos⟩).link.name = []) ↔
      ((loadDblockC s start false).entry 0).link.name = [] := by
    rw [first]
    constructor
    · rintro (none | ⟨start',len',same,_,nameless⟩)
      · exact absurd none empty
      · cases same
        exact nameless
    · exact fun nameless => .inr ⟨start,len,rfl,full,nameless⟩
  rw [listed,lsName_cstr]
  show _ ↔ nchars ≤ 0 ∧ ((loadDblockC s start false).entry 0).name.toList.takeWhile (· ≠ 0) = []
  cases name : ((loadDblockC s start false).entry 0).name.toList.takeWhile (· ≠ 0) with
  | nil =>
      show (∃ s',(if (0 : Int) < nchars then _ else some (loadDblockC s start false,false,[])) = some (s',false,[])) ↔ _
      by_cases more : 0 < nchars
      · rw [if_pos more]
        constructor
        · rintro ⟨_,run⟩
          cases List.prefix_nil.mp (lsLoop_extends n run)
        · exact fun low => absurd more (not_lt.mpr low.1)
      · rw [if_neg more]
        exact ⟨fun _ => ⟨not_lt.mp more,rfl⟩,fun _ => ⟨_,rfl⟩⟩
  | cons c rest =>
      refine iff_of_false ?_ fun wrong => List.cons_ne_nil _ _ wrong.2
      rintro ⟨s',run⟩
      have used : c ≠ 0 := by
        have member : c ∈ ((loadDblockC s start false).entry 0).name.toList.takeWhile (· ≠ 0) := by
          rw [name]
          exact List.mem_cons_self
        simpa using List.mem_takeWhile_imp member
      have stored : [c] <+: (lsName nchars (c :: rest) []).1 := by
        unfold lsName
        rw [if_neg used]
        dsimp only
        split
        · exact List.prefix_refl _
        · exact lsName_extends ..
      rcases result : lsName nchars (c :: rest) [] with ⟨out,_ | _⟩
      all_goals rw [result] at run stored
      · cases run
        cases List.prefix_nil.mp stored
      · dsimp only at run stored
        split at run
        · have wrong := List.prefix_nil.mp (stored.trans ((List.prefix_append ..).trans (lsLoop_extends n run)))
          cases wrong
        · cases run
          cases List.prefix_nil.mp stored

theorem refuses_exact (v : s.Valid) (works : s.disk.Works) (found : s.image.resolve path.bytes = .ok (i,q)) :
    s.RefusesList path nchars ↔ nchars ≤ 0 ∧ s.Nameless (s.inode i) := by
  obtain ⟨s₁,x,p,run,result⟩ := findInode_look v works.sound path
  rw [found] at result
  rcases result with ⟨success,index,_,exist,_,_,s₂,run₂,looked,_,success₂,_,_,cached⟩ | stopped
  · have inode := v.same_inode looked.valid looked.toSame exist
    have exist₂ : i < s₂.vol.hblock.nextInode.toNat := by rw [looked.hblock]; exact exist
    have loop := @lsLoop_file _ nchars _ looked.valid.toMid (Works.same works looked.toSame) exist₂
    unfold Nameless at loop ⊢
    rw [inode,looked.at_eq] at loop
    rw [← loop]
    unfold RefusesList ls
    simp only [run,Option.bind_eq_bind,Option.bind_some]
    rw [if_neg (by simp [success]),run₂]
    simp only [Option.bind_some]
    rw [if_neg (by simp [success₂]),cached]
  · exact (Works.not_faulty works stopped.faulty).elim

-- fs2_ls has no check for the type of the inode.
theorem ls_refuses_iff (v : s.Valid) (works : s.disk.Works) (found : s.image.resolve path.bytes = .ok (i,q)) :
    s.RefusesList path nchars ↔ nchars ≤ 0 ∧ s.Nameless (s.inode i) := refuses_exact v works found

-- A new file is listed as a directory without entries.
theorem file_listed : ¬ ∀ (s : Mount) (path : Path) (i : Nat) (q : Option Nat) (nchars : Int),History AnyOp s →
    s.image.resolve path.bytes = .ok (i,q) → (s.image.node i).ftype = ftypeFile → s.RefusesList path nchars := by
  intro all
  obtain ⟨s,history,image⟩ := fileA_image
  have found : s.image.resolve fileA.bytes = .ok (1,some 0) := by
    rw [image]
    decide +kernel
  have file : (s.image.node 1).ftype = ftypeFile := by
    rw [image]
    decide +kernel
  have refuses := all s fileA 1 (some 0) 5 history found file
  exact absurd ((refuses_exact history.valid.1 history.valid.2 found).mp refuses).1 (by decide)

theorem ls_refuses_empty : ∃ s : Mount,s.image = (Op.create ftypeFile fileA).apply (formatImage 100 3 4 1 2) ∧
    s.RefusesList fileA 0 := by
  obtain ⟨s,history,image⟩ := fileA_image
  have found : s.image.resolve fileA.bytes = .ok (1,some 0) := by
    rw [image]
    decide +kernel
  have exist : 1 < s.vol.hblock.nextInode.toNat := by
    have count : 1 < s.image.nodes.length := by
      rw [image]
      decide +kernel
    rwa [image_length] at count
  have empty : (s.image.node 1).eof = 0 := by
    rw [image]
    decide +kernel
  rw [s.image_node exist] at empty
  exact ⟨s,image,(ls_refuses_iff history.valid.1 history.valid.2 found).mpr
    ⟨le_refl _,.inl (UInt32.toNat_inj.mp empty)⟩⟩

end Files

end Mount
end ArchiveOs.Fs2
