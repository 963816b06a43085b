import ArchiveOs.Buffers
import ArchiveOs.Catalogs

-- A path behind a working directory: fs2_find_file on the string that abs_path_r puts
-- together goes where the path leads from the directory.
namespace ArchiveOs.Fs2
open Extents Layout

-- The pair (i,j) of fs2_find_in_dir_r moves when it has loaded a block.
def findNext (rows : List (UInt32 × UInt8)) (c : Nat × Nat) : Nat × Nat :=
  match rows[c.1]? with
  | none => c
  | some (_,len) => if c.2 + 1 = len.toNat then (c.1 + 1,0) else (c.1,c.2 + 1)

def findWalk (rows : List (UInt32 × UInt8)) : Nat → Nat × Nat
  | 0 => (0,0)
  | q + 1 => findNext rows (findWalk rows q)

-- The block that it loads there.
def findBlock (rows : List (UInt32 × UInt8)) (q : Nat) : UInt32 :=
  match rows[(findWalk rows q).1]? with
  | none => 0
  | some (start,_) => start + UInt32.ofNat (findWalk rows q).2

namespace Mount

-- Block q of the inode table, if it is allocated.
def iblockAddr (s : Mount) (q : UInt32) : Option UInt32 :=
  match iblockScan s.vol.hblock.rows s.vol.hblock.separator.toNat 0 0 q with
  | .found a => some a
  | _ => none

def blockAt (s : Mount) (a : UInt32) : Block := s.disk.blk (s.vol.blk0 + a)

-- Inode x as the disk has it, and entry k of a directory.
def inodeOf (b : IBlock) (i : Nat) : Inode := b.get ⟨i % 32,islot_lt i⟩

def inodeAt (s : Mount) (x : UInt32) : Option Inode :=
  (s.iblockAddr (x / 32)).map fun a => inodeOf (iblockLayout.symm (s.blockAt a)) x.toNat

def entryAt (s : Mount) (n : Inode) (k : Nat) : DirEntry :=
  (dblockLayout.symm (s.blockAt (findBlock n.rows (k / 128)))).get ⟨k % 128,dslot_lt k⟩

-- The inodes that entries lead to from the root.
inductive Within (s : Mount) : UInt32 → Prop
  | root : Within s 0
  | entry {x : UInt32} {n : Inode} {k : Nat} : Within s x → s.inodeAt x = some n → n.ftype = ftypeDir → k < n.eof.toNat →
      Within s (s.entryAt n k).inodeIndex

-- A volume on which paths can be followed: the caches agree with the disk (-1 stands for
-- no block), each directory begins with itself, and what its entries lead to is in an
-- allocated block of the inode table.
structure Walkable (s : Mount) : Prop where
  icache : ∀ x n,s.Within x → s.inodeAt x = some n → s.vol.icindex = x / 32 → s.cached x = n
  dcache : s.vol.dcaddr ≠ minusOne → s.vol.dcache = dblockLayout.symm (s.blockAt s.vol.dcaddr)
  allocated : ∀ x,s.Within x → ∃ n,s.inodeAt x = some n
  dot : ∀ x n,s.Within x → s.inodeAt x = some n → n.ftype = ftypeDir → 0 < n.eof.toNat →
    (s.entryAt n 0).link = ⟨Image.dot,x.toNat⟩
  real : ∀ x n k,s.Within x → s.inodeAt x = some n → n.ftype = ftypeDir → k < n.eof.toNat →
    findBlock n.rows (k / 128) ≠ minusOne

-- A mount of the same volume, with other caches that agree with the disk.
structure Near (s t : Mount) : Prop extends Same s t where
  icache : ∀ x n,s.Within x → s.inodeAt x = some n → t.vol.icindex = x / 32 → t.cached x = n
  dcache : t.vol.dcaddr ≠ minusOne → t.vol.dcache = dblockLayout.symm (s.blockAt t.vol.dcaddr)

section Near
variable {s t : Mount} {a x : UInt32} {n : Inode}

theorem Walkable.near (w : s.Walkable) : Near s s := ⟨.refl s,w.icache,w.dcache⟩

theorem Near.out (near : Near s t) (o : Outcome) : Near s (t.out o) :=
  ⟨near.toSame.trans (.out t o),near.icache,near.dcache⟩

theorem iblockAddr_scan {q : UInt32} (here : s.iblockAddr q = some a) :
    iblockScan s.vol.hblock.rows s.vol.hblock.separator.toNat 0 0 q = .found a := by
  unfold iblockAddr at here
  split at here
  · cases here
    assumption
  · cases here

theorem Near.getIblockC (near : Near s t) (works : s.disk.Works) (within : s.Within x) (here : s.inodeAt x = some n) :
    ∃ u,getIblockC t (x / 32) false false = some u ∧ Near s u ∧ u.vol.outcome = .success ∧ u.cached x = n := by
  unfold Fs2.getIblockC
  by_cases miss : x / 32 ≠ t.vol.icindex
  · obtain ⟨a,block,inode⟩ := Option.map_eq_some_iff.mp here
    have scan : iblockScan t.vol.hblock.rows t.vol.hblock.separator.toNat 0 0 (x / 32) = .found a := by
      rw [near.hblock]
      exact iblockAddr_scan block
    have fine : t.disk.rdFails t.disk.trace.length .icache = false := (Works.same works near.toSame).reads ..
    have content : t.disk.blk (t.vol.blk0 + a) = s.blockAt a := by
      rw [near.blk,near.blk0]
      rfl
    rw [if_pos miss]
    unfold cacheIblock Fs2.getIblock
    simp only [Bool.false_eq_true,if_false,scan,rblk_ok (s := {t with vol := {t.vol with icindex := x / 32}}) fine,
      Option.bind_eq_bind,Option.bind_some,content]
    rw [if_neg (by simp [Mount.out])]
    refine ⟨_,rfl,⟨⟨near.blk0,near.hblock,near.blk,near.rdFails,near.wrFails⟩,?_,near.dcache⟩,rfl,inode⟩
    intro y l _ there same
    obtain ⟨b,block',inode'⟩ := Option.map_eq_some_iff.mp there
    have same : x / 32 = y / 32 := same
    rw [← same,block] at block'
    cases block'
    exact inode'
  · rw [if_neg miss]
    exact ⟨_,rfl,near.out _,rfl,near.icache x n within here (not_not.mp miss).symm⟩

theorem Near.loadDblockC (near : Near s t) (works : s.disk.Works) (real : a ≠ minusOne) :
    Near s (loadDblockC t a false) ∧ (loadDblockC t a false).vol.outcome = .success ∧
      (loadDblockC t a false).vol.dcache = dblockLayout.symm (s.blockAt a) := by
  have content : t.disk.blk (t.vol.blk0 + a) = s.blockAt a := by
    rw [near.blk,near.blk0]
    rfl
  unfold Fs2.loadDblockC
  by_cases miss : a ≠ t.vol.dcaddr
  · rw [if_pos miss,if_neg (by decide),rblk_ok ((Works.same works near.toSame).reads ..),content]
    exact ⟨⟨⟨near.blk0,near.hblock,near.blk,near.rdFails,near.wrFails⟩,near.icache,fun _ => rfl⟩,rfl,rfl⟩
  · rw [if_neg miss]
    have held := near.dcache (by rw [← not_not.mp miss]; exact real)
    rw [← not_not.mp miss] at held
    exact ⟨near.out _,rfl,held⟩

end Near

-- A search in directory n is about to look at entry k, with the block in the cache
-- unless k begins a new one.
structure Stands (s t : Mount) (n : Inode) (k i j : Nat) : Prop where
  row : i < n.rows.length
  walk : (i,j) = findWalk n.rows (if k % 128 = 0 then k / 128 else k / 128 + 1)
  held : k % 128 ≠ 0 → t.vol.dcache = dblockLayout.symm (s.blockAt (findBlock n.rows (k / 128)))

-- The cursor stands at this word.
structure Word (cursor word : List UInt8) : Prop where
  long : word.length ≤ cursor.length
  same : cursor.take word.length = word

section Search
variable {s : Mount} {x : UInt32} {n : Inode} {word : List UInt8}

theorem Word.compare {cursor : List UInt8} (at_word : Word cursor word) (noNul : 0 ∉ word) (e : DirEntry) :
    strncmpEq e.name.toList cursor word.length = word.isPrefixOf (cstr e.name) := by
  rw [strncmpEq_take at_word.long (by rw [at_word.same]; exact noNul),at_word.same]
  rfl

-- What a search may find from entry k on.
structure Turnup (s : Mount) (n : Inode) (word : List UInt8) (k : Nat) (r : UInt32) (o : Outcome) : Prop where
  found : r ≠ minusOne → o = .success ∧ ∃ l,k ≤ l ∧ l < n.eof.toNat ∧ r = (s.entryAt n l).inodeIndex
  first : word = [] → r ≠ minusOne → r = (s.entryAt n k).inodeIndex

theorem Turnup.none (s : Mount) (n : Inode) (word : List UInt8) (k : Nat) (o : Outcome) : Turnup s n word k minusOne o :=
  ⟨fun wrong => absurd rfl wrong,fun _ wrong => absurd rfl wrong⟩

-- The search from entry k on comes to r, whatever the caches hold.
def Answers (s : Mount) (n : Inode) (word : List UInt8) (turns k : Nat) (r : UInt32) (o : Outcome) : Prop :=
  ∀ t i j cursor,Near s t → Stands s t n k i j → Word cursor word →
    ∃ u,findInDirLoop n cursor word.length turns t k i j = some (u,r) ∧ u.vol.outcome = o ∧ Near s u

theorem search_compare (noNul : 0 ∉ word) {turns k : Nat} {r : UInt32} {o : Outcome} (inside : k < n.eof.toNat)
    (sought : Turnup s n word (k + 1) r o) (answers : s.Answers n word turns (k + 1) r o) :
    ∃ r o,Turnup s n word k r o ∧ ∀ t i j cursor,Near s t → i < n.rows.length → (i,j) = findWalk n.rows (k / 128 + 1) →
      t.vol.dcache = dblockLayout.symm (s.blockAt (findBlock n.rows (k / 128))) → Word cursor word →
      ∃ u,(if strncmpEq (t.entry k).name.toList cursor word.length then some (t.out .success,(t.entry k).inodeIndex)
        else findInDirLoop n cursor word.length turns t (k + 1) i j) = some (u,r) ∧ u.vol.outcome = o ∧ Near s u := by
  have here : ∀ t : Mount,t.vol.dcache = dblockLayout.symm (s.blockAt (findBlock n.rows (k / 128))) →
      t.entry k = s.entryAt n k := by
    intro t held
    unfold entry entryAt
    rw [held]
    rfl
  by_cases equal : word.isPrefixOf (cstr (s.entryAt n k).name) = true
  · refine ⟨_,.success,⟨fun _ => ⟨rfl,k,le_refl _,inside,rfl⟩,fun _ _ => rfl⟩,?_⟩
    intro t i j cursor near _ _ held at_word
    rw [here t held,at_word.compare noNul,if_pos equal]
    exact ⟨_,rfl,rfl,near.out _⟩
  · refine ⟨r,o,⟨fun found => ?_,fun empty => ?_⟩,?_⟩
    · obtain ⟨success,l,later,below,value⟩ := sought.found found
      exact ⟨success,l,by omega,below,value⟩
    · rw [empty] at equal
      exact absurd rfl equal
    · intro t i j cursor near row walk held at_word
      rw [here t held,at_word.compare noNul,if_neg equal]
      refine answers t i j cursor near ⟨row,?_,fun inner => ?_⟩ at_word
      · rw [walk]
        congr 1
        split <;> omega
      · rw [held,show (k + 1) / 128 = k / 128 by omega]

-- The block of entry k is loaded, and the search goes on if another one follows.
theorem search_load {k i j : Nat} {t : Mount} (stands : Stands s t n k i j) (boundary : k % 128 = 0) :
    ∃ start len,n.rows[i]? = some (start,len) ∧ start + UInt32.ofNat j = findBlock n.rows (k / 128) ∧
      (if j + 1 = len.toNat then (i + 1,0) else (i,j + 1)) = findWalk n.rows (k / 128 + 1) := by
  have walk := stands.walk
  rw [if_pos boundary] at walk
  obtain ⟨⟨start,len⟩,row⟩ : ∃ r,n.rows[i]? = some r := ⟨_,List.getElem?_eq_getElem stands.row⟩
  refine ⟨start,len,row,?_,?_⟩
  · unfold findBlock
    rw [← walk]
    dsimp only
    rw [row]
  · unfold findWalk findNext
    rw [← walk]
    dsimp only
    rw [row]

theorem search_all (works : s.disk.Works) (noNul : 0 ∉ word)
    (real : ∀ k,k < n.eof.toNat → findBlock n.rows (k / 128) ≠ minusOne) (turns : Nat) {k : Nat}
    (left : k + turns = n.eof.toNat) : ∃ r o,Turnup s n word k r o ∧ s.Answers n word turns k r o := by
  induction turns generalizing k with
  | zero => exact ⟨minusOne,.noFile,.none ..,fun t _ _ _ near _ _ => ⟨_,rfl,rfl,near.out _⟩⟩
  | succ turns ih =>
      obtain ⟨r,o,sought,rest⟩ := ih (k := k + 1) (by omega)
      obtain ⟨r,o,sought,looks⟩ := search_compare noNul (by omega) sought rest
      by_cases boundary : k % 128 = 0
      · by_cases more : ∃ start len,n.rows[(findWalk n.rows (k / 128 + 1)).1]? = some (start,len) ∧ start ≠ 0
        · refine ⟨r,o,sought,?_⟩
          intro t i j cursor near stands at_word
          obtain ⟨start,len,row,address,next⟩ := search_load stands boundary
          obtain ⟨start',len',row',used⟩ := more
          obtain ⟨near',success,held⟩ := near.loadDblockC works (real k (by omega))
          unfold findInDirLoop
          dsimp only
          rw [if_pos boundary,row]
          dsimp only
          rw [address,if_neg (by simp [success]),next]
          rw [row']
          dsimp only
          rw [if_neg used]
          exact looks _ _ _ cursor near' (List.getElem?_eq_some_iff.mp row').1 rfl held at_word
        · refine ⟨minusOne,.noFile,.none ..,?_⟩
          intro t i j cursor near stands at_word
          obtain ⟨start,len,row,address,next⟩ := search_load stands boundary
          obtain ⟨near',success,held⟩ := near.loadDblockC works (real k (by omega))
          unfold findInDirLoop
          dsimp only
          rw [if_pos boundary,row]
          dsimp only
          rw [address,if_neg (by simp [success]),next]
          split
          · exact ⟨_,rfl,rfl,near'.out _⟩
          · rename_i start' len' row'
            have last : start' = 0 := by
              by_contra used
              exact more ⟨start',len',row',used⟩
            rw [if_pos last]
            exact ⟨_,rfl,rfl,near'.out _⟩
      · refine ⟨r,o,sought,?_⟩
        intro t i j cursor near stands at_word
        have walk := stands.walk
        rw [if_neg boundary] at walk
        unfold findInDirLoop
        dsimp only
        rw [if_neg boundary]
        exact looks t i j cursor near stands.row walk (stands.held boundary) at_word

-- What is found in a directory is the same on every mount of the volume. An empty name
-- finds the directory itself, or nothing.
theorem Walkable.lookup (w : s.Walkable) (works : s.disk.Works) (within : s.Within x) (noNul : 0 ∉ word) :
    ∃ r o,(r ≠ minusOne → o = .success ∧ s.Within r) ∧ (word = [] → r ≠ minusOne → r = x) ∧
      ∀ t cursor,Near s t → Word cursor word →
        ∃ u,findInDirR t x cursor word.length = some (u,r) ∧ u.vol.outcome = o ∧ Near s u := by
  obtain ⟨n,here⟩ := w.allocated x within
  by_cases file : n.ftype ≠ ftypeDir
  · refine ⟨minusOne,.badFtype,fun wrong => absurd rfl wrong,fun _ wrong => absurd rfl wrong,?_⟩
    intro t cursor near _
    obtain ⟨u,run,near',success,cached⟩ := near.getIblockC works within here
    unfold findInDirR
    simp only [run,Option.bind_eq_bind,Option.bind_some]
    rw [if_neg (by simp [success]),cached,if_pos file]
    exact ⟨_,rfl,rfl,near'.out _⟩
  · have dir := not_not.mp file
    obtain ⟨r,o,sought,answers⟩ := search_all works noNul (fun k inside => w.real x n k within here dir inside) n.eof.toNat (k := 0)
      (Nat.zero_add _)
    refine ⟨r,o,fun found => ?_,fun empty found => ?_,?_⟩
    · obtain ⟨success,l,_,inside,value⟩ := sought.found found
      rw [value]
      exact ⟨success,.entry within here dir inside⟩
    · obtain ⟨_,l,_,inside,_⟩ := sought.found found
      have self := congrArg Link.inode (w.dot x n within here dir (Nat.lt_of_le_of_lt (Nat.zero_le l) inside))
      rw [sought.first empty found]
      exact UInt32.toNat_inj.mp self
    · intro t cursor near at_word
      obtain ⟨u,run,near',success,cached⟩ := near.getIblockC works within here
      unfold findInDirR
      simp only [run,Option.bind_eq_bind,Option.bind_some]
      rw [if_neg (by simp [success]),cached,if_neg file]
      refine answers u 0 0 cursor near' ⟨?_,rfl,fun inner => absurd rfl inner⟩ at_word
      simp [Inode.rows]

end Search

theorem findFileLoop_step (t : Mount) (x : UInt32) (cursor : List UInt8) : findFileLoop t x cursor =
    if (cursor.takeWhile (· ≠ slash)).length > 28 then some (t.out .invalidPath,minusOne,none)
    else
      match findInDirR t x cursor (cursor.takeWhile (· ≠ slash)).length with
      | none => none
      | some (u,child) =>
        if child = minusOne then some (u,minusOne,none)
        else
          match cursor.dropWhile (· ≠ slash) with
          | [] => some (u.out .success,child,some x)
          | c :: rest => findFileLoop u child ((c :: rest).dropWhile (· = slash)) := by
  rw [findFileLoop]
  by_cases large : (cursor.takeWhile (· ≠ slash)).length > 28
  · rw [if_pos large,if_pos large]
  rw [if_neg large,if_neg large]
  rcases run : findInDirR t x cursor (cursor.takeWhile (· ≠ slash)).length with _ | ⟨u,child⟩
  · rfl
  dsimp only
  by_cases missing : child = minusOne
  · rw [if_pos missing,if_pos missing]
  rw [if_neg missing,if_neg missing]
  split
  · rename_i last
    rw [last]
  · rename_i c rest more
    rw [more]

theorem word_first (cursor : List UInt8) : Word cursor (cursor.takeWhile (· ≠ slash)) :=
  ⟨(List.takeWhile_prefix _).length_le,List.prefix_iff_eq_take.mp (List.takeWhile_prefix _) |>.symm⟩

section Joined
variable {s : Mount} {p : List UInt8}

theorem Walkable.follow (w : s.Walkable) (works : s.disk.Works) (cursor : List UInt8) (noNul : 0 ∉ cursor) {x : UInt32}
    (within : s.Within x) :
    ∃ r o,(r ≠ minusOne → o = .success ∧ s.Within r) ∧
      ∀ t,Near s t → ∃ u q,findFileLoop t x cursor = some (u,r,q) ∧ u.vol.outcome = o ∧ Near s u := by
  by_cases large : (cursor.takeWhile (· ≠ slash)).length > 28
  · refine ⟨minusOne,.invalidPath,fun wrong => absurd rfl wrong,fun t near => ?_⟩
    rw [findFileLoop_step,if_pos large]
    exact ⟨_,_,rfl,rfl,near.out _⟩
  obtain ⟨r,o,leads,_,looks⟩ := @w.lookup _ _ (cursor.takeWhile (· ≠ slash)) works within
    fun member => noNul ((List.takeWhile_prefix _).subset member)
  by_cases missing : r = minusOne
  · refine ⟨minusOne,o,fun wrong => absurd rfl wrong,fun t near => ?_⟩
    obtain ⟨u,run,outcome,near'⟩ := looks t cursor near (word_first cursor)
    rw [findFileLoop_step,if_neg large,run]
    dsimp only
    rw [if_pos missing]
    exact ⟨u,none,rfl,outcome,near'⟩
  cases more : cursor.dropWhile (· ≠ slash) with
  | nil =>
      refine ⟨r,.success,fun _ => ⟨rfl,(leads missing).2⟩,fun t near => ?_⟩
      obtain ⟨u,run,_,near'⟩ := looks t cursor near (word_first cursor)
      rw [findFileLoop_step,if_neg large,run]
      dsimp only
      rw [if_neg missing,more]
      exact ⟨_,_,rfl,rfl,near'.out _⟩
  | cons c rest =>
      have shorter := walk_shorter cursor rest c more
      have rest_noNul : 0 ∉ (c :: rest).dropWhile (· = slash) := by
        intro member
        have inside := (List.dropWhile_suffix _).subset member
        rw [← more] at inside
        exact noNul ((List.dropWhile_suffix _).subset inside)
      obtain ⟨r',o',leads',looks'⟩ := Walkable.follow w works _ rest_noNul (leads missing).2
      refine ⟨r',o',leads',fun t near => ?_⟩
      obtain ⟨u,run,_,near'⟩ := looks t cursor near (word_first cursor)
      rw [findFileLoop_step,if_neg large,run]
      dsimp only
      rw [if_neg missing,more]
      exact looks' u near'
termination_by cursor.length
decreasing_by exact shorter

theorem takeWhile_join (wd : List UInt8) : (wd ++ slash :: p).takeWhile (· ≠ slash) = wd.takeWhile (· ≠ slash) := by
  induction wd with
  | nil => rfl
  | cons c wd ih =>
      by_cases here : c = slash
      · rw [here]
        rfl
      · rw [List.cons_append,List.takeWhile_cons_of_pos (by simpa using here),List.takeWhile_cons_of_pos (by simpa using here),ih]

theorem dropWhile_join (wd : List UInt8) :
    (wd ++ slash :: p).dropWhile (· ≠ slash) = wd.dropWhile (· ≠ slash) ++ slash :: p := by
  induction wd with
  | nil => rfl
  | cons c wd ih =>
      by_cases here : c = slash
      · rw [here]
        rfl
      · rw [List.cons_append,List.dropWhile_cons_of_pos (by simpa using here),List.dropWhile_cons_of_pos (by simpa using here),ih]

-- Behind the slashes comes what was behind them, or the path if there was nothing.
theorem dropSlashes_join (relative : p.head? ≠ some slash) (cs : List UInt8) :
    (cs ++ slash :: p).dropWhile (· = slash) =
      if cs.dropWhile (· = slash) = [] then p else cs.dropWhile (· = slash) ++ slash :: p := by
  induction cs with
  | nil =>
      cases p with
      | nil => rfl
      | cons c p =>
          have other : c ≠ slash := fun here => relative (by rw [here]; rfl)
          rw [List.nil_append,List.dropWhile_cons_of_pos rfl,List.dropWhile_cons_of_neg (by simpa using other)]
          rfl
  | cons c cs ih =>
      by_cases here : c = slash
      · rw [List.cons_append,List.dropWhile_cons_of_pos (by simpa using here),List.dropWhile_cons_of_pos (by simpa using here),ih]
      · rw [List.cons_append,List.dropWhile_cons_of_neg (by simpa using here),List.dropWhile_cons_of_neg (by simpa using here),
          if_neg (List.cons_ne_nil _ _)]
        rfl

-- The walk over wd/path goes on with the path where the walk over wd has come to.
theorem Walkable.join (w : s.Walkable) (works : s.disk.Works) (relative : p.head? ≠ some slash) (wd : List UInt8)
    (noNul : 0 ∉ wd) {x d : UInt32} {t t' u : Mount} {q : Option UInt32} (within : s.Within x) (near : Near s t)
    (near' : Near s t') (found : findFileLoop t x wd = some (u,d,q)) (there : d ≠ minusOne) :
    ∃ v,Near s v ∧ findFileLoop t' x (wd ++ slash :: p) = findFileLoop v d p := by
  rw [findFileLoop_step] at found
  split at found
  · cases found
    exact absurd rfl there
  rename_i large
  obtain ⟨r,o,leads,_,looks⟩ := @w.lookup _ _ (wd.takeWhile (· ≠ slash)) works within
    fun member => noNul ((List.takeWhile_prefix _).subset member)
  obtain ⟨u₁,run,_,near₁⟩ := looks t wd near (word_first wd)
  obtain ⟨v₁,run',_,near₁'⟩ := looks t' (wd ++ slash :: p) near' (by
    have first := word_first (wd ++ slash :: p)
    rwa [takeWhile_join] at first)
  rw [run] at found
  dsimp only at found
  split at found
  · cases found
    exact absurd rfl there
  rename_i hit
  rw [findFileLoop_step,takeWhile_join,if_neg large,run']
  dsimp only
  rw [if_neg hit,dropWhile_join]
  cases more : wd.dropWhile (· ≠ slash) with
  | nil =>
      rw [more] at found
      cases found
      refine ⟨v₁,near₁',?_⟩
      exact congrArg (findFileLoop v₁ d) ((dropSlashes_join relative []).trans (if_pos rfl))
  | cons c rest =>
      rw [more] at found
      have shorter := walk_shorter wd rest c more
      have rest_noNul : 0 ∉ (c :: rest).dropWhile (· = slash) := by
        intro member
        have inside := (List.dropWhile_suffix _).subset member
        rw [← more] at inside
        exact noNul ((List.dropWhile_suffix _).subset inside)
      show ∃ v,Near s v ∧ findFileLoop v₁ r ((c :: rest ++ slash :: p).dropWhile (· = slash)) = findFileLoop v d p
      rw [dropSlashes_join relative]
      by_cases trailing : (c :: rest).dropWhile (· = slash) = []
      · -- The empty name at the end of wd finds the directory itself.
        rw [if_pos trailing]
        refine ⟨v₁,near₁',?_⟩
        dsimp only at found
        rw [trailing,findFileLoop_step] at found
        obtain ⟨r',_,_,self,looks'⟩ := @Walkable.lookup _ _ [] w works (leads hit).2 List.not_mem_nil
        obtain ⟨u₂,run₂,_,_⟩ := looks' u₁ [] near₁ ⟨le_refl _,rfl⟩
        rw [show ([] : List UInt8).takeWhile (· ≠ slash) = [] from rfl,if_neg (by decide),run₂] at found
        dsimp only at found
        split at found
        · cases found
          exact absurd rfl there
        · rename_i seen
          cases found
          rw [self rfl seen]
      · rw [if_neg trailing]
        exact Walkable.join w works relative _ rest_noNul (leads hit).2 near₁ near₁' found there
termination_by wd.length
decreasing_by exact shorter

end Joined

-- What a path means from directory d, however abs_path_r writes it down.
def findFrom (s : Mount) (d : UInt32) : List UInt8 → Option (Mount × UInt32 × Option UInt32)
  | [] => some (s.out .success,d,none)
  | c :: rest => if c = slash then findFile s rest else findFileLoop s d (c :: rest)

-- Two lookups come to the same inode and outcome.
def SameFind (a b : Option (Mount × UInt32 × Option UInt32)) : Prop :=
  ∃ t t' r p p',a = some (t,r,p) ∧ b = some (t',r,p') ∧ t.vol.outcome = t'.vol.outcome

section Composed
variable {s u : Mount} {wd p : List UInt8} {d : UInt32} {q : Option UInt32}

theorem SameFind.refl {a : Option (Mount × UInt32 × Option UInt32)} (ends : a.isSome) : SameFind a a := by
  obtain ⟨⟨t,r,p⟩,here⟩ := Option.isSome_iff_exists.mp ends
  exact ⟨t,t,r,p,p,here,here,rfl⟩

theorem Walkable.root (w : s.Walkable) (works : s.disk.Works) :
    ∃ t,getIblockC s 0 false false = some t ∧ Near s t := by
  obtain ⟨n,here⟩ := w.allocated 0 .root
  obtain ⟨t,run,near,_⟩ := w.near.getIblockC works .root here
  exact ⟨t,run,near⟩

theorem Walkable.findFile_ends (w : s.Walkable) (works : s.disk.Works) (noNul : 0 ∉ p) : (findFile s p).isSome := by
  unfold findFile
  by_cases empty : p = []
  · rw [if_pos empty]
    rfl
  · rw [if_neg empty]
    obtain ⟨t,run,near⟩ := w.root works
    obtain ⟨r,o,_,goes⟩ := w.follow works p noNul .root
    obtain ⟨u,q,walks,_⟩ := goes t near
    simp only [run,Option.bind_eq_bind,Option.bind_some,walks]
    rfl

-- A working directory that is found ends with success, in a directory that entries lead to.
theorem Walkable.found (w : s.Walkable) (works : s.disk.Works) (noNul : 0 ∉ wd) (found : findFile s wd = some (u,d,q))
    (there : d ≠ minusOne) : u.vol.outcome = .success ∧ s.Within d := by
  unfold findFile at found
  by_cases empty : wd = []
  · rw [if_pos empty] at found
    cases found
    exact ⟨rfl,.root⟩
  · rw [if_neg empty] at found
    obtain ⟨t,run,near⟩ := w.root works
    simp only [run,Option.bind_eq_bind,Option.bind_some] at found
    obtain ⟨r,o,leads,goes⟩ := w.follow works wd noNul .root
    obtain ⟨u',q',walks,outcome,_⟩ := goes t near
    cases found.symm.trans walks
    rw [outcome]
    exact leads there

theorem Walkable.compose (w : s.Walkable) (works : s.disk.Works) (noNul : 0 ∉ wd) (noNul' : 0 ∉ p)
    (found : findFile s wd = some (u,d,q)) (there : d ≠ minusOne) (nonempty : p ≠ []) (relative : p.head? ≠ some slash) :
    SameFind (findFile s (if wd = [] then p else wd ++ slash :: p)) (findFileLoop s d p) := by
  obtain ⟨r,o,_,goes⟩ := w.follow works p noNul' (w.found works noNul found there).2
  obtain ⟨t₀,run₀,near₀⟩ := w.root works
  obtain ⟨u',q',walks',outcome',_⟩ := goes s w.near
  by_cases empty : wd = []
  · rw [if_pos empty]
    unfold findFile at found ⊢
    rw [if_pos empty] at found
    cases found
    obtain ⟨v,q₀,walks,outcome,_⟩ := goes t₀ near₀
    rw [if_neg nonempty]
    simp only [run₀,Option.bind_eq_bind,Option.bind_some]
    exact ⟨v,u',r,q₀,q',walks,walks',outcome.trans outcome'.symm⟩
  · rw [if_neg empty]
    unfold findFile at found ⊢
    rw [if_neg empty] at found
    simp only [run₀,Option.bind_eq_bind,Option.bind_some] at found ⊢
    obtain ⟨t,near,joined⟩ := w.join works relative wd noNul .root near₀ near₀ found there
    obtain ⟨v,q₀,walks,outcome,_⟩ := goes t near
    rw [if_neg (by simp)]
    exact ⟨v,u',r,q₀,q',joined.trans walks,walks',outcome.trans outcome'.symm⟩

end Composed

-- A mounted volume can be walked on.
section Mounts
variable {s : Mount} {x : UInt32}

theorem inodeAt_valid (v : s.Valid) (h : x.toNat < s.vol.hblock.nextInode.toNat) :
    s.inodeAt x = some (s.inode x.toNat) := by
  obtain ⟨b,found⟩ := itable_holds v.toMid h
  have quotient : (x / 32).toNat = x.toNat / 32 := by rw [UInt32.toNat_div]; rfl
  have scan := scan_found v.toMid (q := x / 32) (b := b) (by rw [quotient]; exact found)
  unfold inodeAt iblockAddr
  rw [scan]
  show some _ = some _
  rw [v.inode_disk h]
  unfold diskInode
  rw [List.getD_eq_getElem?_getD,found]
  rfl

theorem findWalk_cursor (v : s.Mid) {d : Nat} (h : d < s.vol.hblock.nextInode.toNat) (dir : (s.inode d).ftype = ftypeDir)
    (live : (s.inode d).regs ≠ []) (positive : ∀ r ∈ (s.inode d).regs,0 < r.len) (q : Nat)
    (inside : 128 * q < (s.inode d).eof.toNat) :
    Cursor (s.inode d).regs q (findWalk (s.inode d).rows q).1 (findWalk (s.inode d).rows q).2 := by
  induction q with
  | zero => exact .start positive
  | succ q ih =>
      have here := ih (by omega)
      have quotient : 128 * q / 128 = q := by omega
      obtain ⟨start,len,b,row,_,_,_,_,next⟩ := front v h dir live (k := 128 * q) (by omega) (by rw [quotient]; exact here)
      rw [quotient] at next
      unfold findWalk findNext
      rw [row]
      dsimp only
      split
      · rename_i last
        rwa [if_pos last] at next
      · rename_i more
        rwa [if_neg more] at next

theorem entryAt_link (v : s.Valid) (a : s.image.Attached x.toNat) (dir : (s.inode x.toNat).ftype = ftypeDir) {k : Nat}
    (inside : k < (s.inode x.toNat).eof.toNat) :
    (s.image.node x.toNat).links[k]? = some (s.entryAt (s.inode x.toNat) k).link ∧
      findBlock (s.inode x.toNat).rows (k / 128) ≠ minusOne := by
  have alive := a.alive v.good
  have h : x.toNat < s.vol.hblock.nextInode.toNat := by
    have exist := alive.1
    rwa [image_length] at exist
  have node := s.image_node h
  have dir' : (s.image.node x.toNat).ftype = ftypeDir := by rw [node]; exact dir
  have live := alive.2 dir'
  have positive := (a.dirOk v.good dir').positive
  rw [node] at live positive
  have cursor := findWalk_cursor v.toMid h dir live positive (k / 128) (by omega)
  obtain ⟨start,len,b,row,address,at_q,dirBlock,_,_⟩ := front v.toMid h dir live inside cursor
  have block : findBlock (s.inode x.toNat).rows (k / 128) = UInt32.ofNat b := by
    unfold findBlock
    rw [row]
    exact address
  refine ⟨?_,?_⟩
  · rw [links_getElem? h dir live inside]
    have value : (blocks (s.inode x.toNat).regs).getD (k / 128) 0 = b := by rw [List.getD_eq_getElem?_getD,at_q]; rfl
    unfold linkAt entryAt blockAt
    simp only [value,block]
    rfl
  · rw [block]
    intro last
    have small := Nat.lt_trans dirBlock.2.1 s.nextBlock_lt
    have value := congrArg UInt32.toNat last
    rw [UInt32.toNat_ofNat_of_lt' small] at value
    have upper := v.ok.upper
    have room := v.ok.room
    have below := dirBlock.2.1
    have top : minusOne.toNat = 4294967295 := rfl
    omega

theorem Valid.within (v : s.Valid) (within : s.Within x) : s.image.Attached x.toNat := by
  induction within with
  | root => exact .root
  | @entry x n k _ here dir inside ih =>
      have alive := ih.alive v.good
      have h : x.toNat < s.vol.hblock.nextInode.toNat := by
        have exist := alive.1
        rwa [image_length] at exist
      cases (inodeAt_valid v h).symm.trans here
      have dir' : (s.image.node x.toNat).ftype = ftypeDir := by rw [s.image_node h]; exact dir
      exact ih.link v.good dir' (entryAt_link v ih dir inside).1

theorem Valid.walkable (v : s.Valid) : s.Walkable := by
  have live : ∀ {x},s.Within x → x.toNat < s.vol.hblock.nextInode.toNat := by
    intro x within
    have exist := ((v.within within).alive v.good).1
    rwa [image_length] at exist
  refine ⟨?_,?_,fun x within => ⟨_,inodeAt_valid v (live within)⟩,?_,?_⟩
  · intro x n within here cached
    cases (inodeAt_valid v (live within)).symm.trans here
    exact cached_inode cached
  · intro held
    rcases v.dclean with none | ⟨_,right⟩
    · exact absurd none held
    · rw [right]
      unfold Mount.at blockAt
      rw [UInt32.ofNat_toNat]
  · intro x n within here dir inside
    cases (inodeAt_valid v (live within)).symm.trans here
    have attached := v.within within
    have dir' : (s.image.node x.toNat).ftype = ftypeDir := by rw [s.image_node (live within)]; exact dir
    exact Option.some.inj ((entryAt_link v attached dir inside).1.symm.trans (attached.dirOk v.good dir').self)
  · intro x n k within here dir inside
    cases (inodeAt_valid v (live within)).symm.trans here
    exact (entryAt_link v (v.within within) dir inside).2

end Mounts

end Mount
end ArchiveOs.Fs2

namespace ArchiveOs.Kernel
open Fs2 Fs2.Mount
open Prog

section Relative
variable {s u : Mount} {wd : Path} {d : UInt32} {q : Option UInt32}

-- The path of a call, which is the empty one for NULL.
def Machine.given (m : Machine) (path : UInt32) : Path := if path = 0 then emptyPath else stringAt m.ram path

-- fs2_find_file on what abs_path_r puts together.
theorem relative_paths_compose (w : s.Walkable) (works : s.disk.Works) (found : findFile s wd.bytes = some (u,d,q))
    (there : d ≠ minusOne) (m : Machine) (path : UInt32)
    (room : wd.bytes.length + (m.given path).bytes.length + 2 ≤ 256) :
    ∃ a,(absPathR path wd).Ends m a m ∧ SameFind (findFile s a.bytes) (s.findFrom d (m.given path).bytes) := by
  have success := (w.found works wd.noNul found there).1
  have given : path ≠ 0 → m.given path = stringAt m.ram path := fun used => if_neg used
  by_cases null : path = 0 ∨ m.ram path = 0
  · -- No path: it is the working directory.
    have none : (m.given path).bytes = [] := by
      unfold Machine.given
      split
      · rfl
      · rename_i used
        exact stringFrom_end (null.resolve_left used) 0xFFFFFFFF
    have behind : m.behind wd path = wd := if_pos null
    refine ⟨wd,absPathR_ends.mpr ⟨by unfold Machine.HasRoom; tauto,behind,rfl⟩,?_⟩
    rw [none]
    exact ⟨u,s.out .success,d,q,Option.none,found,rfl,success⟩
  have used := null
  rw [not_or] at used
  rw [given used.1] at room ⊢
  have split := stringAt_next used.2 (by omega)
  by_cases root : m.ram path = slash
  · -- A path from the root is taken from its second byte on.
    have behind : m.behind wd path = stringAt m.ram (path + 1) := (if_neg null).trans (if_pos root)
    refine ⟨_,absPathR_ends.mpr ⟨.inr (.inr (.inl root)),behind,rfl⟩,?_⟩
    have from_root : s.findFrom d (stringAt m.ram path).bytes = findFile s (stringAt m.ram (path + 1)).bytes := by
      rw [split]
      exact if_pos root
    rw [from_root]
    exact .refl (w.findFile_ends works (stringAt m.ram (path + 1)).noNul)
  · have joins : m.HasRoom wd path := .inr (.inr (.inr (.inr room)))
    have behind : (m.behind wd path).bytes =
        if wd.bytes = [] then (stringAt m.ram path).bytes else wd.bytes ++ slash :: (stringAt m.ram path).bytes := by
      unfold Machine.behind
      rw [if_neg null,if_neg root]
      split <;> rfl
    have relative : (stringAt m.ram path).bytes.head? ≠ some slash := by
      rw [split]
      exact fun wrong => root (Option.some.inj wrong)
    have nonempty : (stringAt m.ram path).bytes ≠ [] := by
      rw [split]
      exact List.cons_ne_nil _ _
    refine ⟨_,absPathR_ends.mpr ⟨joins,rfl,rfl⟩,?_⟩
    have from_d : s.findFrom d (stringAt m.ram path).bytes = findFileLoop s d (stringAt m.ram path).bytes := by
      rw [split]
      exact if_neg root
    rw [behind,from_d]
    exact w.compose works wd.noNul (stringAt m.ram path).noNul found there nonempty relative

end Relative

-- "./a" on the volume that has a file "a".
theorem relative_paths_compose_filed : ∃ a,(absPathR 0x70001000 ⟨[0x2E],by decide⟩).Ends (Machine.opener.asksA 0) a
    (Machine.opener.asksA 0) ∧ SameFind (findFile filed a.bytes) (findFileLoop filed 0 [0x61]) := by
  obtain ⟨valid,works,_,image⟩ := filed_valid
  obtain ⟨u,d,q,run,_,_,result⟩ := findFile_look valid works.sound [0x2E] (by decide)
  have resolved : filed.image.resolve [0x2E] = .ok (0,some 0) := by
    rw [image]
    decide +kernel
  rw [resolved] at result
  rcases result with ⟨_,root,_,_⟩ | ⟨_,faulty,_⟩
  · have zero : d = 0 := UInt32.toNat_inj.mp root
    have string : ((Machine.opener.asksA 0).given 0x70001000).bytes = [0x61] := by decide +kernel
    obtain ⟨a,ends,same⟩ := @relative_paths_compose _ _ ⟨[0x2E],by decide⟩ _ _ valid.walkable works run
      (by rw [zero]; decide) (Machine.opener.asksA 0) 0x70001000 (by rw [string]; decide)
    rw [string,zero] at same
    exact ⟨a,ends,same⟩
  · exact (Works.not_faulty works faulty).elim

end ArchiveOs.Kernel
