import ArchiveOs.Namings
import ArchiveOs.Removals

-- Whether the calls that take a path act on what has exactly the names of the path.
namespace ArchiveOs.Fs2
open Extents Layout

-- What fs2_find_file looks up: nothing for the empty path.
def parts (path : List UInt8) : List (List UInt8) :=
  if path = [] then [] else components false path

-- The part of a path with which fs2_create looks up the parent.
def parentPart (path : List UInt8) : List UInt8 :=
  let split := splitBack path (path.length - 1)
  if split = 0 then [] else path.take (stripBack path split + 1)

theorem parentPart_length {path : List UInt8} (nonempty : path ≠ []) :
    (parentPart path).length ≤ 1 ↔ stripBack path (splitBack path (path.length - 1)) = 0 := by
  have size := List.length_pos_iff.mpr nonempty
  have back := (splitBack_spec path (path.length - 1)).1
  have strip := (stripBack_spec path (splitBack path (path.length - 1))).1
  unfold parentPart
  dsimp only
  by_cases root : splitBack path (path.length - 1) = 0
  · rw [if_pos root,root]
    exact ⟨fun _ => rfl,fun _ => Nat.zero_le 1⟩
  · rw [if_neg root,List.length_take]
    omega

namespace Image
variable {m : Image}

-- A walk that takes entries with exactly these names, where each lookup leads.
inductive Through (m : Image) : Nat → List (List UInt8) → Nat → Prop
  | here (d : Nat) : Through m d [] d
  | step {d i : Nat} {l : Link} {names : List (List UInt8)} : l ∈ (m.node d).links → m.lookup d l.name = .ok l.inode →
      Through m l.inode names i → Through m d (l.name :: names) i

-- The directories that are searched, each with the name that it is searched for.
def searched (m : Image) : Nat → List (List UInt8) → List (Nat × List UInt8)
  | _,[] => []
  | d,name :: names => (d,name) ::
    match m.lookup d name with
    | .error _ => []
    | .ok child => searched m child names

-- No search of the path takes a longer name for the one that it is for.
def Distinguished (m : Image) (path : List UInt8) : Prop :=
  ∀ q ∈ m.searched 0 (parts path),(m.node q.1).Distinct q.2

theorem walk_through_iff {d i p : Nat} {names : List (List UInt8)} (found : m.walk d names = .ok (i,p)) :
    m.Through d names i ↔ ∀ q ∈ m.searched d names,(m.node q.1).Distinct q.2 := by
  induction names generalizing d with
  | nil => cases found
  | cons name rest ih =>
      unfold walk at found
      split at found
      · cases found
      cases hit : m.lookup d name with
      | error e =>
          rw [hit] at found
          cases found
      | ok child =>
          rw [hit] at found
          dsimp only at found
          have first : (m.node d).Distinct name ↔ ∃ l ∈ (m.node d).links,l.name = name ∧ l.inode = child := by
            rw [← lookup_exact_iff (lookup_ok.mp hit).1]
            refine ⟨fun all => all child hit,fun one i hit' => ?_⟩
            cases hit.symm.trans hit'
            exact one
          have onward : m.Through child rest i ↔ ∀ q ∈ m.searched child rest,(m.node q.1).Distinct q.2 := by
            by_cases ending : rest = []
            · rw [if_pos ending] at found
              cases found
              rw [ending]
              exact ⟨fun _ q member => absurd member List.not_mem_nil,fun _ => .here _⟩
            · rw [if_neg ending] at found
              exact ih found
          unfold searched
          rw [hit,List.forall_mem_cons,first,← onward]
          constructor
          · intro through
            cases through with
            | @step _ _ l _ member hit' behind =>
                cases hit.symm.trans hit'
                exact ⟨⟨l,member,rfl,rfl⟩,behind⟩
          · rintro ⟨⟨l,member,rfl,rfl⟩,behind⟩
            exact .step member hit behind

theorem resolve_through_iff {path : List UInt8} {i : Nat} {q : Option Nat} (found : m.resolve path = .ok (i,q)) :
    m.Through 0 (parts path) i ↔ m.Distinguished path := by
  unfold resolve at found
  unfold Distinguished parts
  by_cases empty : path = []
  · rw [if_pos empty] at found ⊢
    cases found
    exact ⟨fun _ q member => (nomatch member),fun _ => .here 0⟩
  · rw [if_neg empty] at found ⊢
    cases walked : m.walk 0 (components false path) with
    | error e =>
        rw [walked] at found
        cases found
    | ok r =>
        rw [walked] at found
        cases found
        exact walk_through_iff walked

theorem Through.only {d i p x : Nat} {names : List (List UInt8)} (through : m.Through d names x)
    (found : m.walk d names = .ok (i,p)) : x = i ∧ ∃ l ∈ (m.node p).links,l.inode = i ∧ names.getLast? = some l.name := by
  induction through with
  | here => cases found
  | @step d x l rest member hit behind ih =>
      unfold walk at found
      rw [hit] at found
      split at found
      · cases found
      dsimp only at found
      by_cases ending : rest = []
      · rw [if_pos ending] at found
        cases found
        subst ending
        cases behind
        exact ⟨rfl,l,member,rfl,rfl⟩
      · rw [if_neg ending] at found
        obtain ⟨same,l',member',leads,last⟩ := ih found
        exact ⟨same,l',member',leads,by rw [List.getLast?_cons_of_ne_nil ending]; exact last⟩

theorem Through.resolved {i x : Nat} {q : Option Nat} {path : List UInt8} (through : m.Through 0 (parts path) x)
    (found : m.resolve path = .ok (i,q)) : x = i ∧ ∀ p,q = some p →
      ∃ l ∈ (m.node p).links,l.inode = i ∧ (parts path).getLast? = some l.name := by
  unfold resolve at found
  unfold parts at through ⊢
  by_cases empty : path = []
  · rw [if_pos empty] at found through
    cases found
    cases through
    exact ⟨rfl,fun p wrong => (nomatch wrong)⟩
  · rw [if_neg empty] at found through ⊢
    cases walked : m.walk 0 (components false path) with
    | error e =>
        rw [walked] at found
        cases found
    | ok r =>
        rw [walked] at found
        cases found
        obtain ⟨same,last⟩ := through.only walked
        refine ⟨same,fun p parent => ?_⟩
        cases parent
        exact last

theorem Through.root (good : m.Good) {d : Nat} {names : List (List UInt8)} (a : m.Attached d)
    (through : m.Through d names 0) (some_ : names ≠ []) :
    names.getLast? = some dot ∨ names.getLast? = some dotdot := by
  generalize zero : 0 = i at through
  induction through with
  | here => exact absurd rfl some_
  | @step d i l rest member hit behind ih =>
      have dir := (lookup_ok.mp hit).1
      obtain ⟨k,at_k⟩ := List.getElem?_of_mem member
      by_cases ending : rest = []
      · subst ending
        cases behind
        have dirOk := a.dirOk good dir
        match k with
        | 0 => rw [dirOk.self] at at_k; cases at_k; exact .inl rfl
        | 1 => rw [dirOk.up] at at_k; cases at_k; exact .inr rfl
        | k + 2 =>
            have := (dirOk.child _ l (by omega) at_k).1
            omega
      · rw [List.getLast?_cons_of_ne_nil ending]
        exact ih (a.link good dir at_k) ending zero

-- fs2_create makes an inode in directory p. A parent of one character is not looked up.
structure Places (m : Image) (ftype : UInt8) (path : List UInt8) (p : Nat) : Prop where
  missing : m.resolve path = .error .noFile
  named : path.getD (path.length - 1) 0 ≠ slash
  begins : m.Begins ftype
  parent : if (parentPart path).length ≤ 1 then p = 0 else ∃ q,m.resolve (parentPart path) = .ok (p,q)

theorem createParent_eq {path : List UInt8} (nonempty : path ≠ []) (named : path.getD (path.length - 1) 0 ≠ slash) (ftype : UInt8) :
    ∃ name,m.createParent ftype path = if (parentPart path).length ≤ 1 then m.createFile name 0 ftype
      else match m.resolve (parentPart path) with
        | .error e => (m,e)
        | .ok (p,_) => m.createFile name p ftype := by
  have one := parentPart_length nonempty
  unfold createParent
  dsimp only
  rw [if_neg named]
  refine ⟨path.drop (if splitBack path (path.length - 1) = 0 then splitBack path (path.length - 1)
    else splitBack path (path.length - 1) + 1),?_⟩
  by_cases few : stripBack path (splitBack path (path.length - 1)) = 0
  · rw [if_pos few,if_pos (one.mpr few)]
  · have split : ¬ splitBack path (path.length - 1) = 0 := fun zero => few (by rw [zero]; rfl)
    have part : parentPart path = path.take (stripBack path (splitBack path (path.length - 1)) + 1) := if_neg split
    rw [part] at one ⊢
    exact (if_neg few).trans (if_neg (fun le => few (one.mp le))).symm

theorem createFile_parent (good : m.Good) {ftype : UInt8} (begins : m.Begins ftype) (name : List UInt8) {p : Nat}
    (exist : p < m.nodes.length) : (m.createFile name p ftype).1.nodes.length = m.nodes.length + 1 ∧
      ((m.createFile name p ftype).1.node m.nodes.length).iparent = p := by
  obtain ⟨m₁,n,made,nodes,_,_,_,_,parent⟩ := createFile_begins good.toOk begins name p
  have length : m₁.nodes.length = m.nodes.length := by rw [nodes]
  have last : (m₁.push n).node m.nodes.length = n := by rw [node_push,if_pos length.symm]
  rw [made]
  dsimp only
  rcases link_cases name m.nodes.length (show p < (m₁.push n).nodes.length by rw [length_push]; omega) with
    ⟨_,none⟩ | ⟨_,_,_,_,same,others⟩
  · rw [none,length_push,last]
    exact ⟨by omega,parent⟩
  · rw [same,length_push,others m.nodes.length (by omega),last]
    exact ⟨by omega,parent⟩

theorem create_places (good : m.Good) (ftype : UInt8) (path : List UInt8) :
    (∃ p,m.Places ftype path p ∧ (m.create ftype path).1.nodes.length = m.nodes.length + 1 ∧
      ((m.create ftype path).1.node m.nodes.length).iparent = p) ∨
    (∀ p,¬ m.Places ftype path p) ∧ (m.create ftype path).1.nodes = m.nodes := by
  unfold create
  cases there : m.resolve path with
  | ok r => exact .inr ⟨fun p places => (by cases there.symm.trans places.missing),rfl⟩
  | error e =>
      by_cases missing : e = .noFile
      · subst missing
        dsimp only
        have nonempty : path ≠ [] := fun empty => by
          rw [empty] at there
          cases there
        by_cases named : path.getD (path.length - 1) 0 = slash
        · refine .inr ⟨fun p places => places.named named,?_⟩
          unfold createParent
          dsimp only
          rw [if_pos named]
        obtain ⟨name,call⟩ := createParent_eq (m := m) nonempty named ftype
        rw [call]
        by_cases begins : m.Begins ftype
        · by_cases few : (parentPart path).length ≤ 1
          · rw [if_pos few]
            exact .inl ⟨0,⟨there,named,begins,by rw [if_pos few]⟩,createFile_parent good begins name good.root.1⟩
          · rw [if_neg few]
            cases found : m.resolve (parentPart path) with
            | error e =>
                refine .inr ⟨fun p places => ?_,rfl⟩
                have parent := places.parent
                rw [if_neg few,found] at parent
                obtain ⟨q,wrong⟩ := parent
                cases wrong
            | ok r =>
                obtain ⟨p,q⟩ := r
                have exist := ((resolve_attached good found).alive good).1
                exact .inl ⟨p,⟨there,named,begins,by rw [if_neg few]; exact ⟨q,found⟩⟩,createFile_parent good begins name exist⟩
        · refine .inr ⟨fun p places => begins places.begins,?_⟩
          by_cases few : (parentPart path).length ≤ 1
          · rw [if_pos few]
            exact (createFile_stops good.toOk begins name 0).2
          · rw [if_neg few]
            cases m.resolve (parentPart path) with
            | error e => rfl
            | ok r => exact (createFile_stops good.toOk begins name r.1).2
      · cases e with
        | noFile => exact absurd rfl missing
        | _ => exact .inr ⟨fun p places => (by cases there.symm.trans places.missing),rfl⟩

-- Directory p has the names of the parent part.
def Under (m : Image) (path : List UInt8) (p : Nat) : Prop :=
  m.Through 0 (parts (parentPart path)) p ∨ parentPart path = dot ∧ p = 0

-- A parent of one character is the root itself, and a longer one is found by its own names.
def Parented (m : Image) (path : List UInt8) : Prop :=
  if (parentPart path).length ≤ 1 then parentPart path = [] ∨ parentPart path = dot else m.Distinguished (parentPart path)

theorem Places.under_iff (good : m.Good) {ftype : UInt8} {path : List UInt8} {p : Nat} (places : m.Places ftype path p) :
    m.Under path p ↔ m.Parented path := by
  have parent := places.parent
  unfold Under Parented
  by_cases few : (parentPart path).length ≤ 1
  · rw [if_pos few] at parent ⊢
    subst parent
    constructor
    · rintro (through | ⟨same,_⟩)
      · by_cases empty : parentPart path = []
        · exact .inl empty
        · obtain ⟨c,single⟩ := List.length_eq_one_iff.mp (Nat.le_antisymm few (List.length_pos_iff.mpr empty))
          rw [single] at through ⊢
          by_cases sep : c = slash
          · rw [sep] at through
            rcases through.root good .root (by decide) with wrong | wrong <;> exact absurd wrong (by decide)
          · have one : parts [c] = [[c]] := by
              unfold parts
              rw [if_neg (List.cons_ne_nil c []),components_name _ (by simpa using fun same : slash = c => sep same.symm)]
            rw [one] at through
            rcases through.root good .root (List.cons_ne_nil _ _) with same | wrong
            · exact .inr (Option.some.inj same)
            · have long : [c] = dotdot := Option.some.inj wrong
              exact absurd (congrArg List.length long) (show 1 ≠ 2 by decide)
      · exact .inr same
    · rintro (same | same)
      · rw [same]
        exact .inl (.here 0)
      · exact .inr ⟨same,rfl⟩
  · rw [if_neg few] at parent ⊢
    obtain ⟨q,found⟩ := parent
    rw [← resolve_through_iff found]
    refine ⟨fun under => under.resolve_right fun both => few ?_,.inl⟩
    rw [both.1]
    decide

end Image

namespace Mount
variable {s : Mount}

-- fs2_find_file returns only what has exactly the names of the path.
def FindsNamed (s : Mount) (path : Path) : Prop :=
  ∀ t x p,findFile s path.bytes = some (t,x,p) → t.vol.outcome = .success → s.image.Through 0 (parts path.bytes) x.toNat

-- The victim that fs2_rm hands to fs2_unlink has these names, and its entry the last of them.
def RemovesNamed (s : Mount) (path : Path) : Prop :=
  ∀ t p x,unlinkCall s path.bytes = some (t,p,x) → s.image.Through 0 (parts path.bytes) x.toNat ∧
    (p ≠ x → ∀ l ∈ (s.image.node p.toNat).links,l.inode = x.toNat → (parts path.bytes).getLast? = some l.name)

-- What fs2_create refuses to make again has these names, and the directory of a new inode
-- those of the parent.
def CreatesNamed (s : Mount) (ftype : UInt8) (path : Path) : Prop :=
  ∀ s' r,create s ftype path = some (s',r) →
    (s'.vol.outcome = .unexpectedFile → ∃ x,s.image.Through 0 (parts path.bytes) x) ∧
    (s.image.nodes.length < s'.image.nodes.length →
      s.image.Under path.bytes (s'.image.node s.image.nodes.length).iparent)

theorem findsNamed_iff (v : s.Valid) (works : s.disk.Works) (path : Path) :
    s.FindsNamed path ↔ ∀ r,s.image.resolve path.bytes = .ok r → s.image.Distinguished path.bytes := by
  obtain ⟨t,x,p,run,_,_,result⟩ := findFile_look v works.sound path.bytes path.noNul
  rcases result with ⟨_,result⟩ | ⟨_,faulty,_⟩
  · cases found : s.image.resolve path.bytes with
    | error e =>
        rw [found] at result
        refine ⟨fun _ r wrong => (nomatch wrong),fun _ t' x' p' run' success => ?_⟩
        cases run.symm.trans run'
        exact absurd (result.2.2.symm.trans success) (Image.resolve_error found).1
    | ok r =>
        rw [found] at result
        constructor
        · intro finds _ _
          have through := finds t x p run result.2.2
          rw [result.1] at through
          exact (Image.resolve_through_iff found).mp through
        · intro distinct t' x' p' run' _
          cases run.symm.trans run'
          rw [result.1]
          exact (Image.resolve_through_iff found).mpr (distinct r rfl)
  · exact (Works.not_faulty works faulty).elim

-- fs2_rm comes to fs2_unlink with everything that can be removed, and with nothing else.
theorem unlink_reached (v : s.Valid) (works : s.disk.Works) (path : Path) {i : Nat} {q : Option Nat}
    (found : s.image.resolve path.bytes = .ok (i,q)) (other : i ≠ 0)
    (empty : ¬ ((s.image.node i).ftype = ftypeDir ∧ 2 < (s.image.node i).eof)) :
    ∃ (t : Mount) (p x : UInt32),x.toNat = i ∧ q = some p.toNat ∧ unlinkCall s path.bytes = some (t,p,x) := by
  rcases Image.resolve_victim v.good found other empty with self | ⟨d,K,_,_,victim⟩
  · rw [self] at found
    obtain ⟨t,x,index,own,_,_,call⟩ := self_own v works path found other empty
    obtain ⟨u,start,fine⟩ := own.start
    rw [start,Option.bind_some,if_neg (by simp [fine])] at call
    exact ⟨u,x,x,index,by rw [self,index],call⟩
  · obtain ⟨_,_,_,_,above,_⟩ := victim.child v.good
    have apart := Victim.apart victim (Nat.ne_of_lt above)
    obtain ⟨_,t,_,x,p,_,index,parent,_,_,_,call,_⟩ := unlink_called v works apart victim
    cases found.symm.trans victim.found
    exact ⟨t,p,x,index,by rw [parent],call⟩

theorem unlink_came (v : s.Valid) (works : s.disk.Works) (path : Path) {t : Mount} {p x : UInt32}
    (call : unlinkCall s path.bytes = some (t,p,x)) : s.image.resolve path.bytes = .ok (x.toNat,some p.toNat) ∧
      x.toNat ≠ 0 ∧ ¬ ((s.image.node x.toNat).ftype = ftypeDir ∧ 2 < (s.image.node x.toNat).eof) := by
  by_cases comes : ∃ i q,s.image.resolve path.bytes = .ok (i,q) ∧ i ≠ 0 ∧
      ¬ ((s.image.node i).ftype = ftypeDir ∧ 2 < (s.image.node i).eof)
  · obtain ⟨i,q,found,other,empty⟩ := comes
    obtain ⟨t',p',x',index,parent,call'⟩ := unlink_reached v works path found other empty
    cases call.symm.trans call'
    subst index
    exact ⟨by rw [found,parent],other,empty⟩
  · have none : ∀ i q,s.image.resolve path.bytes = .ok (i,q) → i = 0 ∨ ((s.image.node i).ftype = ftypeDir ∧ 2 < (s.image.node i).eof) := by
      intro i q found
      by_contra neither
      rw [not_or] at neither
      exact comes ⟨i,q,found,neither⟩
    rcases rm_sought v works.sound path fun y self => none y _ self with ⟨_,_,no,_⟩ | ⟨_,_,_,_,a,_⟩
    · rw [no] at call
      cases call
    · rcases none _ _ a.victim.found with zero | full
      · exact absurd zero a.victim.other
      · exact absurd full a.victim.empty

theorem removesNamed_iff (v : s.Valid) (works : s.disk.Works) (path : Path) :
    s.RemovesNamed path ↔ ∀ x q,s.image.resolve path.bytes = .ok (x,q) → x ≠ 0 →
      ¬ ((s.image.node x).ftype = ftypeDir ∧ 2 < (s.image.node x).eof) → s.image.Distinguished path.bytes := by
  constructor
  · intro removes i q found other empty
    obtain ⟨t,p,x,rfl,_,call⟩ := unlink_reached v works path found other empty
    exact (Image.resolve_through_iff found).mp (removes t p x call).1
  · intro distinct t p x call
    obtain ⟨found,other,empty⟩ := unlink_came v works path call
    have through := (Image.resolve_through_iff found).mpr (distinct _ _ found other empty)
    refine ⟨through,fun apart l member leads => ?_⟩
    obtain ⟨l',member',leads',last⟩ := (through.resolved found).2 p.toNat rfl
    rcases Image.resolve_victim v.good found other empty with self | ⟨d,K,attached,dir,victim⟩
    · exact absurd (UInt32.toNat_inj.mp (Option.some.inj self)) apart
    · -- The directory has one entry for the victim.
      cases found.symm.trans victim.found
      obtain ⟨l₀,at_K,leads₀⟩ := victim.entry
      obtain ⟨k,at_k⟩ := List.getElem?_of_mem member
      obtain ⟨k',at_k'⟩ := List.getElem?_of_mem member'
      have dirOk := attached.dirOk v.good dir
      cases dirOk.unique victim.two at_K leads₀ at_k leads
      cases dirOk.unique victim.two at_K leads₀ at_k' leads'
      cases at_k.symm.trans at_k'
      exact last

theorem createsNamed_iff (v : s.Valid) (works : s.disk.Works) (ftype : UInt8) (path : Path) :
    s.CreatesNamed ftype path ↔ (∀ r,s.image.resolve path.bytes = .ok r → s.image.Distinguished path.bytes) ∧
      ∀ p,s.image.Places ftype path.bytes p → s.image.Parented path.bytes := by
  obtain ⟨s',r,run,ended⟩ := create_spec v works.sound ftype path (createLookups_quiet v works.sound path works.reads)
  rcases ended with ⟨_,_,image,outcome,_⟩ | ⟨stopped,_⟩
  · constructor
    · intro creates
      obtain ⟨taken,made⟩ := creates s' r run
      refine ⟨fun r found => ?_,fun p places => ?_⟩
      · have refused : (s.image.create ftype path.bytes).2 = .unexpectedFile := by
          unfold Image.create
          rw [found]
        obtain ⟨x,through⟩ := taken (outcome.trans refused)
        rw [(through.resolved found).1] at through
        exact (Image.resolve_through_iff found).mp through
      · rcases Image.create_places v.good ftype path.bytes with ⟨p',places',length,parent⟩ | ⟨none,_⟩
        · have under := made (by rw [image,length]; exact Nat.lt_succ_self _)
          rw [image,parent] at under
          exact (places'.under_iff v.good).mp under
        · exact (none p places).elim
    · rintro ⟨distinct,parented⟩ s₁ r₁ run₁
      cases run.symm.trans run₁
      refine ⟨fun refused => ?_,fun more => ?_⟩
      · obtain ⟨⟨i,q⟩,found⟩ := create_unexpected (outcome.symm.trans refused)
        exact ⟨i,(Image.resolve_through_iff found).mpr (distinct _ found)⟩
      · rcases Image.create_places v.good ftype path.bytes with ⟨p,places,_,parent⟩ | ⟨_,same⟩
        · rw [image,parent]
          exact (places.under_iff v.good).mpr (parented p places)
        · rw [image,same] at more
          exact absurd more (Nat.lt_irrefl _)
  · exact (Works.not_faulty works stopped.faulty).elim

-- Exactly when the lookups of one name, and the calls that take a path, keep to the names.
theorem lookups_exact_iff (trail : Trail Careful s) :
    (∀ (d : UInt32) (name : List UInt8) (nchars : Nat),s.image.Attached d.toNat → nchars ≤ name.length →
      0 ∉ name.take nchars → (s.FindsOnly d name nchars ↔ (s.image.node d.toNat).Distinct (name.take nchars))) ∧
    ∀ path : Path,
      (s.FindsNamed path ↔ ∀ r,s.image.resolve path.bytes = .ok r → s.image.Distinguished path.bytes) ∧
      (s.RemovesNamed path ↔ ∀ x q,s.image.resolve path.bytes = .ok (x,q) → x ≠ 0 →
        ¬ ((s.image.node x).ftype = ftypeDir ∧ 2 < (s.image.node x).eof) → s.image.Distinguished path.bytes) ∧
      ∀ ftype,s.CreatesNamed ftype path ↔
        (∀ r,s.image.resolve path.bytes = .ok r → s.image.Distinguished path.bytes) ∧
          ∀ p,s.image.Places ftype path.bytes p → s.image.Parented path.bytes := by
  obtain ⟨v,works⟩ := trail.valid
  refine ⟨fun d name nchars attached long noNul => findsOnly_iff v attached long noNul,fun path => ?_⟩
  exact ⟨findsNamed_iff v works path,removesNamed_iff v works path,fun ftype => createsNamed_iff v works ftype path⟩

-- The file "dd/b" is found, removed and refused under its own names.
theorem lookups_exact_below : ∃ s : Mount,Trail Careful s ∧ s.image.resolve pathDDB.bytes = .ok (2,some 1) ∧
    s.FindsOnly 1 [0x62] 1 ∧ s.FindsNamed pathDDB ∧ s.RemovesNamed pathDDB ∧ s.CreatesNamed ftypeFile pathDDB := by
  obtain ⟨s,formatted,image⟩ := formats 3 passes_boot (by decide)
  obtain ⟨t,history,after⟩ := (History.format formatted : History AnyOp s).runs
    [.create ftypeDir dirDD,.create ftypeFile pathDDB] fun op member t => by
      simp only [List.mem_cons,List.not_mem_nil,or_false] at member
      rcases member with rfl | rfl <;> trivial
  rw [image] at after
  have found : t.image.resolve pathDDB.bytes = .ok (2,some 1) := by
    rw [after]
    decide +kernel
  have upper : (⟨dirDD.bytes,1⟩ : Link) ∈ (t.image.node 0).links := by
    rw [after]
    decide +kernel
  have lower : (⟨[0x62],2⟩ : Link) ∈ (t.image.node 1).links := by
    rw [after]
    decide +kernel
  have first : t.image.lookup 0 dirDD.bytes = .ok 1 := by
    rw [after]
    decide +kernel
  have second : t.image.lookup 1 [0x62] = .ok 2 := by
    rw [after]
    decide +kernel
  have distinct := (Image.resolve_through_iff found).mp (.step upper first (.step lower second (.here 2)))
  have lookups := lookups_exact_iff history.trail
  obtain ⟨finds,removes,creates⟩ := lookups.2 pathDDB
  refine ⟨t,history.trail,found,(lookups.1 1 [0x62] 1 ?_ (by decide) (by decide)).mpr ?_,finds.mpr fun _ _ => distinct,
    removes.mpr fun _ _ _ _ _ => distinct,(creates ftypeFile).mpr ⟨fun _ _ => distinct,fun p places => ?_⟩⟩
  · obtain ⟨k,at_k⟩ := List.getElem?_of_mem upper
    exact (Image.Attached.root.link history.valid.1.good (Image.lookup_ok.mp first).1 at_k)
  · rw [show ([0x62] : List UInt8).take 1 = [0x62] from rfl]
    refine (Image.lookup_exact_iff (Image.lookup_ok.mp second).1).mp fun i hit => ?_
    cases second.symm.trans hit
    exact ⟨_,lower,rfl,rfl⟩
  · cases found.symm.trans places.missing

end Mount
end ArchiveOs.Fs2
