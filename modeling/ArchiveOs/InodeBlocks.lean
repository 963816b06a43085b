import ArchiveOs.Effects

-- The blocks of the inode table: fs2_get_iblock is asked for no block further than the
-- next one, and a block keeps its address.
namespace ArchiveOs.Fs2
open Extents Layout

-- A call of fs2_get_iblock and the volume that it finds.
structure IblockCall where
  state : Mount
  ibindex : UInt32
  saveH : Bool

namespace IblockCall

def answer (c : IblockCall) : Option (Mount × UInt32) := getIblock c.state c.ibindex c.saveH

-- The header behind the call.
def after (c : IblockCall) : HBlock :=
  match c.answer with
  | some (s,_) => s.vol.hblock
  | none => c.state.vol.hblock

def Returns (c : IblockCall) (ibaddr : UInt32) : Prop :=
  ∃ s,c.answer = some (s,ibaddr) ∧ s.vol.outcome = .success

end IblockCall

-- The calls that each function makes, in their order. It goes through the same states
-- as the function itself.
def getIblockCCalls (s : Mount) (ibindex : UInt32) (saveH savechanges : Bool) : List IblockCall :=
  if ibindex ≠ s.vol.icindex then
    if savechanges then
      let s := saveIblockC s
      if s.vol.outcome ≠ .success then [] else [⟨s.indexed ibindex,ibindex,saveH⟩]
    else [⟨s.indexed ibindex,ibindex,saveH⟩]
  else []

def findInDirRCalls (s : Mount) (diindex : UInt32) : List IblockCall := getIblockCCalls s (diindex / 32) false false

def findFileLoopCalls (s : Mount) (parent : UInt32) (cursor : List UInt8) : List IblockCall :=
  let i := (cursor.takeWhile (· ≠ slash)).length
  if i > 28 then []
  else
    findInDirRCalls s parent ++
      match findInDirR s parent cursor i with
      | none => []
      | some (s,child) =>
        if child = minusOne then []
        else
          match _more : cursor.dropWhile (· ≠ slash) with
          | [] => []
          | c :: rest => findFileLoopCalls s child ((c :: rest).dropWhile (· = slash))
termination_by cursor.length
decreasing_by exact walk_shorter _ _ _ _more

def findFileCalls (s : Mount) (path : List UInt8) : List IblockCall :=
  if path = [] then []
  else
    getIblockCCalls s 0 false false ++
      match getIblockC s 0 false false with
      | none => []
      | some s => findFileLoopCalls s 0 path

-- How fs2_read, fs2_write, fs2_isftype and fs2_ls begin; the rest of them makes no call.
def openCalls (s : Mount) (path : List UInt8) : List IblockCall :=
  findFileCalls s path ++
    match findFile s path with
    | none => []
    | some (s,iindex,_) => if s.vol.outcome ≠ .success then [] else getIblockCCalls s (iindex / 32) false false

def linkNewCalls (s : Mount) (parent iindex : UInt32) (ftype : UInt8) : List IblockCall :=
  if s.vol.outcome ≠ .success then []
  else
    let s := if ftype = ftypeDir then populateDir s iindex parent else s
    if iindex ≠ 0 then getIblockCCalls s (parent / 32) false true else []

def createFileCalls (s : Mount) (parent : UInt32) (ftype : UInt8) : List IblockCall :=
  let iindex := s.vol.hblock.nextInode
  getIblockCCalls s (iindex / 32) true false ++
    match getIblockC s (iindex / 32) true false with
    | none => []
    | some s =>
      if s.vol.outcome ≠ .success then []
      else
        match initInode s iindex ftype s.vol.hblock.defaultPerm with
        | none => []
        | some s => linkNewCalls (s.setCached iindex {s.cached iindex with iparent := parent}) parent iindex ftype

def createCalls (s : Mount) (ftype : UInt8) (path : List UInt8) : List IblockCall :=
  findFileCalls s path ++
    match findFile s path with
    | none => []
    | some (s,_) =>
      if s.vol.outcome ≠ .noFile ∨ path.getD (path.length - 1) 0 = slash then []
      else
        let split := stripBack path (splitBack path (path.length - 1))
        if split = 0 then createFileCalls s 0 ftype
        else
          findFileCalls s (path.take (split + 1)) ++
            match findFile s (path.take (split + 1)) with
            | none => []
            | some (s,p,_) => if s.vol.outcome ≠ .success then [] else createFileCalls s p ftype

def Op.iblockCalls (s : Mount) : Op → List IblockCall
  | .create ftype path => createCalls s ftype path.bytes
  | .write path _ _ _ => openCalls s path.bytes
  | .read path _ _ => openCalls s path.bytes
  | .isftype path _ => openCalls s path.bytes
  | .ls path _ => openCalls s path.bytes

-- `find_blk(reg_start, reg_len, separator, b)` of the header.
def HBlock.blk (h : HBlock) (b : Nat) : UInt32 := findBlk (h.rows.take h.separator.toNat) b 0

-- What fs2_get_iblock relies on.
structure HBlock.Stocked (h : HBlock) : Prop where
  separator : h.separator = 800
  tidy : Tidy h.rows
  ilen : 0 < h.defaultIregLen.toNat
  inodes : h.nextInode.toNat ≤ 32 * total h.regs

section Call
variable {s t : Mount} {h h' : HBlock} {q a : UInt32} {saveH : Bool}

theorem Mount.Mid.stocked (v : s.Mid) : s.vol.hblock.Stocked where
  separator := v.sep.separator
  tidy := v.htidy
  ilen := v.ok.ilen.1
  inodes := by
    have := v.ok.inodes
    rwa [Mount.image_length] at this

namespace HBlock

theorem Stocked.slot (stocked : h.Stocked) {i : Nat} (exist : i < h.nextInode.toNat) : i / 32 < total h.regs := by
  have := stocked.inodes
  omega

theorem Stocked.next (stocked : h.Stocked) : h.nextInode.toNat / 32 ≤ total h.regs := by
  have := stocked.inodes
  omega

theorem blk_eq (separator : h.separator = 800) (b : Nat) :
    h.blk b = (((blocks h.regs)[b]?).map UInt32.ofNat).getD 0 := by
  have whole : h.rows.take h.separator.toNat = h.rows := by
    rw [separator]
    exact List.take_of_length_le (by simp)
  rw [blk,whole,findBlk_eq h.rows (Nat.zero_le b),Nat.sub_zero]
  rfl

theorem blk_prefix (separator : h.separator = 800) (separator' : h'.separator = 800) (more : h.regs <+: h'.regs) {b : Nat}
    (inside : b < total h.regs) : h'.blk b = h.blk b := by
  obtain ⟨rest,regs⟩ := more
  rw [blk_eq separator,blk_eq separator',← regs,blocks_append,List.getElem?_append_left (by simpa using inside)]

end HBlock

theorem scan_eq (stocked : h.Stocked) (q : UInt32) : iblockScan h.rows h.separator.toNat 0 0 q =
    match (blocks h.regs)[q.toNat]? with
    | some b => .found (UInt32.ofNat b)
    | none => .stop h.regs.length := by
  have scan := iblockScan_eq h.rows q (i := 0) (Nat.zero_le q.toNat)
  rw [HBlock.length_rows,Nat.sub_zero,Nat.zero_add,Nat.zero_add] at scan
  rw [stocked.separator]
  exact scan

theorem rblk_hblock {x : Buffer} {b : Option Block} (run : rblk s a x = (t,b)) : t.vol.hblock = s.vol.hblock := by
  simp only [rblk,Prod.mk.injEq] at run
  rw [← run.1]

theorem getIblock_found (stocked : s.vol.hblock.Stocked) (inside : q.toNat < total s.vol.hblock.regs)
    (run : getIblock s q saveH = some (t,a)) : t.vol.hblock = s.vol.hblock ∧ a = s.vol.hblock.blk q.toNat := by
  obtain ⟨b,at_q⟩ : ∃ b,(blocks s.vol.hblock.regs)[q.toNat]? = some b :=
    ⟨_,List.getElem?_eq_getElem (by simpa using inside)⟩
  rw [HBlock.blk_eq stocked.separator,at_q]
  unfold getIblock at run
  dsimp only at run
  rw [scan_eq stocked,at_q] at run
  dsimp only at run
  split at run
  · rename_i read
    cases run
    have same := rblk_hblock read
    exact ⟨same,rfl⟩
  · rename_i read
    cases run
    have same := rblk_hblock read
    exact ⟨same,rfl⟩

-- A header with one more region for the inode table.
structure HBlock.Longer (h h' : HBlock) (start : UInt32) : Prop where
  stocked : h'.Stocked
  regs : h'.regs = h.regs ++ [⟨start.toNat,h.defaultIregLen.toNat⟩]
  nextInode : h'.nextInode = h.nextInode

theorem HBlock.Longer.blk {start : UInt32} (longer : h.Longer h' start) (ilen : 0 < h.defaultIregLen.toNat) :
    h'.blk (total h.regs) = start := by
  have behind : (blocks h'.regs)[total h.regs]? = some start.toNat := by
    rw [longer.regs,blocks_append,List.getElem?_append_right (by simp)]
    simp [blocks_cons,Region.blocks,ilen]
  rw [blk_eq longer.stocked.separator,behind]
  simp

theorem findFreeRegion_hblock {rsz : UInt8} (run : findFreeRegion s rsz false = some (t,a)) :
    t.vol.outcome ≠ .success ∧ a = 0 ∧ t.vol.hblock = s.vol.hblock ∨
      t.vol.outcome = .success ∧ a = s.vol.hblock.nextBlock ∧
        t.vol.hblock = {s.vol.hblock with nextBlock := s.vol.hblock.nextBlock + rsz.toUInt32} := by
  unfold findFreeRegion at run
  dsimp only at run
  split at run
  · cases run
  · split at run
    · cases run
      exact .inl ⟨by simp,rfl,rfl⟩
    · cases run
      exact .inr ⟨rfl,rfl,rfl⟩

theorem Longer.made (stocked : h.Stocked) (room : h.regs.length < 800) (used : a ≠ 0) (nextBlock : UInt32) :
    h.Longer {h with
      nextBlock
      regStart := h.regStart.setIfInBounds h.regs.length a
      regLen := h.regLen.setIfInBounds h.regs.length h.defaultIregLen} a := by
  have rows := rows_set h.regStart h.regLen h.regs.length a h.defaultIregLen
  obtain ⟨regs,tidy⟩ := regions_set stocked.tidy a h.defaultIregLen used (by rw [HBlock.length_rows]; exact room)
  have more : ∀ h' : HBlock,h'.rows = h.rows.set (regions h.rows).length (a,h.defaultIregLen) →
      h'.regs = h.regs ++ [⟨a.toNat,h.defaultIregLen.toNat⟩] ∧ Tidy h'.rows := by
    intro h' same
    rw [HBlock.regs,same]
    exact ⟨regs,tidy⟩
  obtain ⟨regs',tidy'⟩ := more {h with
    nextBlock
    regStart := h.regStart.setIfInBounds h.regs.length a
    regLen := h.regLen.setIfInBounds h.regs.length h.defaultIregLen} rows
  refine ⟨⟨stocked.separator,tidy',stocked.ilen,?_⟩,regs',rfl⟩
  rw [regs',total_append]
  exact stocked.inodes.trans (by omega)

@[simp] theorem saveHblock_hblock (s : Mount) : (saveHblock s).vol.hblock = s.vol.hblock := by
  unfold saveHblock wblk
  dsimp only
  cases (s.disk.wr (s.vol.blk0 + 0) .hblock (headerLayout s.vol.hblock)).2 <;> rfl

-- Behind the last block of the table one more region is taken, or the call fails.
theorem getIblock_behind (stocked : s.vol.hblock.Stocked) (used : s.vol.hblock.nextBlock ≠ 0)
    (beyond : total s.vol.hblock.regs ≤ q.toNat) (run : getIblock s q saveH = some (t,a)) :
    t.vol.hblock = s.vol.hblock ∧ t.vol.outcome ≠ .success ∨ s.vol.hblock.Longer t.vol.hblock a := by
  have none : (blocks s.vol.hblock.regs)[q.toNat]? = none := List.getElem?_eq_none (by simpa using beyond)
  unfold getIblock at run
  dsimp only at run
  rw [scan_eq stocked,none] at run
  dsimp only at run
  have bound := regions_length_le s.vol.hblock.rows
  rw [HBlock.length_rows] at bound
  have count : s.vol.hblock.regs.length = (regions s.vol.hblock.rows).length := rfl
  have slots : s.vol.hblock.separator.toNat = 800 := by rw [stocked.separator]; rfl
  split at run
  · cases run
    exact .inl ⟨rfl,by simp⟩
  · rename_i room
    obtain ⟨⟨t',a'⟩,region,rest⟩ := Option.bind_eq_some_iff.mp run
    dsimp only at rest
    rcases findFreeRegion_hblock region with ⟨failed,zero,same⟩ | ⟨_,start,header⟩
    · rw [if_pos zero] at rest
      cases rest
      exact .inl ⟨same,failed⟩
    · rw [if_neg (by rw [start]; exact used)] at rest
      refine .inr ?_
      have made := Longer.made stocked (by omega) (a := a') (by rw [start]; exact used)
        (s.vol.hblock.nextBlock + s.vol.hblock.defaultIregLen.toUInt32)
      split at rest
      · cases rest
        rw [saveHblock_hblock]
        show HBlock.Longer _ {t'.vol.hblock with
          regStart := t'.vol.hblock.regStart.setIfInBounds s.vol.hblock.regs.length a
          regLen := t'.vol.hblock.regLen.setIfInBounds s.vol.hblock.regs.length t'.vol.hblock.defaultIregLen} a
        rw [header]
        exact made
      · cases rest
        show HBlock.Longer _ {t'.vol.hblock with
          regStart := t'.vol.hblock.regStart.setIfInBounds s.vol.hblock.regs.length a
          regLen := t'.vol.hblock.regLen.setIfInBounds s.vol.hblock.regs.length t'.vol.hblock.defaultIregLen} a
        rw [header]
        exact made

-- Neither the eviction of the old block nor the end of fs2_get_iblock_c looks at the header.
theorem saveIblockC_hblock (s : Mount) : (saveIblockC s).vol.hblock = s.vol.hblock := by
  unfold saveIblockC wblk
  dsimp only
  cases (s.disk.wr (s.vol.blk0 + s.vol.icaddr) .icache (iblockLayout s.vol.icache)).2 <;> rfl

theorem cacheIblock_hblock (run : cacheIblock s q saveH = some t) :
    t.vol.hblock = (IblockCall.mk (s.indexed q) q saveH).after := by
  rw [Mount.cacheIblock_eq] at run
  obtain ⟨⟨u,a⟩,answer,rest⟩ := Option.map_eq_some_iff.mp run
  have after : (IblockCall.mk (s.indexed q) q saveH).after = u.vol.hblock := by
    unfold IblockCall.after IblockCall.answer
    rw [answer]
  rw [after,← rest]
  dsimp only
  split <;> rfl

end Call

namespace IblockCall

-- The call asks for a block that is there or for the next one, takes no region for an
-- inode that counts, and returns the address that the table has for the block.
structure Answered (c : IblockCall) : Prop where
  bound : c.ibindex.toNat ≤ total c.state.vol.hblock.regs
  stays : ∀ i,i < c.state.vol.hblock.nextInode.toNat → i / 32 = c.ibindex.toNat → c.after = c.state.vol.hblock
  address : ∀ ibaddr,c.Returns ibaddr → c.after.blk c.ibindex.toNat = ibaddr

-- What the rest of the run needs of it.
structure Sustained (c : IblockCall) : Prop extends Answered c where
  stocked : c.state.vol.hblock.Stocked
  restocked : c.after.Stocked
  nextInode : c.after.nextInode = c.state.vol.hblock.nextInode
  kept : c.state.vol.hblock.regs <+: c.after.regs
  inside : ∀ ibaddr,c.Returns ibaddr → c.ibindex.toNat < total c.after.regs

variable {c : IblockCall}

theorem after_some {t : Mount} {a : UInt32} (answer : c.answer = some (t,a)) : c.after = t.vol.hblock := by
  rw [after,answer]

theorem after_none (answer : c.answer = none) : c.after = c.state.vol.hblock := by
  rw [after,answer]

theorem after_found (stocked : c.state.vol.hblock.Stocked) (inside : c.ibindex.toNat < total c.state.vol.hblock.regs) :
    c.after = c.state.vol.hblock := by
  cases answer : c.answer with
  | none => exact after_none answer
  | some r => rw [after_some answer,(getIblock_found stocked inside answer).1]

theorem steady_found (stocked : c.state.vol.hblock.Stocked) (inside : c.ibindex.toNat < total c.state.vol.hblock.regs) :
    c.Sustained := by
  have same := after_found stocked inside
  refine ⟨⟨inside.le,fun _ _ _ => same,?_⟩,stocked,?_,?_,?_,?_⟩
  · rintro ibaddr ⟨t,answer,_⟩
    rw [same]
    exact (getIblock_found stocked inside answer).2.symm
  · rw [same]; exact stocked
  · rw [same]
  · rw [same]
  · intro _ _
    rw [same]; exact inside

theorem steady_next (stocked : c.state.vol.hblock.Stocked) (used : c.state.vol.hblock.nextBlock ≠ 0)
    (next : c.ibindex.toNat = total c.state.vol.hblock.regs) : c.Sustained := by
  have beyond : ∀ i,i < c.state.vol.hblock.nextInode.toNat → i / 32 ≠ c.ibindex.toNat := by
    intro i exist
    have := stocked.slot exist
    omega
  -- The call fails, or the table gets its next region.
  have ends : (c.after = c.state.vol.hblock ∧ ∀ ibaddr,¬ c.Returns ibaddr) ∨
      ∃ a,c.state.vol.hblock.Longer c.after a ∧ ∀ ibaddr,c.Returns ibaddr → ibaddr = a := by
    cases answer : c.answer with
    | none =>
        refine .inl ⟨after_none answer,?_⟩
        rintro ibaddr ⟨t,some,_⟩
        rw [answer] at some
        cases some
    | some r =>
        rw [after_some answer]
        rcases getIblock_behind stocked used next.ge answer with ⟨same,failed⟩ | longer
        · refine .inl ⟨same,?_⟩
          rintro ibaddr ⟨t,some,success⟩
          cases answer.symm.trans some
          exact failed success
        · refine .inr ⟨_,longer,?_⟩
          rintro ibaddr ⟨t,some,_⟩
          cases answer.symm.trans some
          rfl
  rcases ends with ⟨same,never⟩ | ⟨a,longer,only⟩
  · refine ⟨⟨next.le,fun _ _ _ => same,fun ibaddr returns => (never ibaddr returns).elim⟩,stocked,?_,?_,?_,?_⟩
    · rw [same]; exact stocked
    · rw [same]
    · rw [same]
    · exact fun ibaddr returns => (never ibaddr returns).elim
  · refine ⟨⟨next.le,fun i exist here => (beyond i exist here).elim,?_⟩,stocked,longer.stocked,longer.nextInode,?_,?_⟩
    · intro ibaddr returns
      rw [only ibaddr returns,next]
      exact longer.blk stocked.ilen
    · rw [longer.regs]; exact List.prefix_append _ _
    · intro _ _
      rw [longer.regs,total_append,next]
      have := stocked.ilen
      simpa using this

theorem Sustained.lasts (steady : c.Sustained) {a : UInt32} (returns : c.Returns a) {h : HBlock} (separator : h.separator = 800)
    (more : c.after.regs <+: h.regs) : h.blk c.ibindex.toNat = a := by
  rw [HBlock.blk_prefix steady.restocked.separator separator more (steady.inside a returns)]
  exact steady.address a returns

end IblockCall

-- The calls on the way from one header to another: the table only gets longer.
structure Served (h h' : HBlock) (calls : List IblockCall) : Prop where
  kept : h.regs <+: h'.regs
  steady : ∀ c ∈ calls,c.Sustained
  first : ∀ c ∈ calls,h.regs <+: c.state.vol.hblock.regs
  last : ∀ c ∈ calls,c.after.regs <+: h'.regs
  order : calls.Pairwise fun c c' => c.after.regs <+: c'.state.vol.hblock.regs

namespace Served
variable {h h' h'' : HBlock} {calls calls' : List IblockCall}

theorem none (kept : h.regs <+: h'.regs) : Served h h' [] := ⟨kept,by simp,by simp,by simp,.nil⟩

theorem append (a : Served h h' calls) (b : Served h' h'' calls') : Served h h'' (calls ++ calls') where
  kept := a.kept.trans b.kept
  steady c member := (List.mem_append.mp member).elim (a.steady c) (b.steady c)
  first c member := (List.mem_append.mp member).elim (a.first c) fun member => a.kept.trans (b.first c member)
  last c member := (List.mem_append.mp member).elim (fun member => (a.last c member).trans b.kept) (b.last c)
  order := List.pairwise_append.mpr ⟨a.order,b.order,fun c before c' behind => (a.last c before).trans (b.first c' behind)⟩

theorem regs (a : Served h h' calls) {h₀ : HBlock} (same : h.regs = h₀.regs) : Served h₀ h' calls :=
  ⟨by rw [← same]; exact a.kept,a.steady,fun c member => by rw [← same]; exact a.first c member,a.last,a.order⟩

theorem single {c : IblockCall} (steady : c.Sustained) (first : h.regs <+: c.state.vol.hblock.regs)
    (last : c.after.regs <+: h'.regs) : Served h h' [c] where
  kept := (first.trans steady.kept).trans last
  steady := by simpa using steady
  first := by simpa using first
  last := by simpa using last
  order := List.pairwise_singleton _ _

end Served

-- A call for the block of an inode that exists, with the header h.
structure IblockCall.Visits (h : HBlock) (c : IblockCall) : Prop where
  header : c.state.vol.hblock = h
  inode : ∃ i,i < h.nextInode.toNat ∧ c.ibindex.toNat = i / 32

section Calls
variable {s t : Mount} {h h' : HBlock} {q : UInt32} {saveH savechanges : Bool} {calls : List IblockCall}

theorem served_visits (stocked : h.Stocked) (visits : ∀ c ∈ calls,c.Visits h) (kept : h.regs <+: h'.regs) :
    Served h h' calls := by
  have inside : ∀ c ∈ calls,c.ibindex.toNat < total c.state.vol.hblock.regs := by
    intro c member
    obtain ⟨header,i,exist,here⟩ := visits c member
    rw [header,here]
    exact stocked.slot exist
  have own : ∀ c ∈ calls,c.state.vol.hblock.Stocked := fun c member => by rw [(visits c member).header]; exact stocked
  have same : ∀ c ∈ calls,c.after = h := fun c member =>
    (IblockCall.after_found (own c member) (inside c member)).trans (visits c member).header
  refine ⟨kept,fun c member => IblockCall.steady_found (own c member) (inside c member),?_,?_,?_⟩
  · intro c member
    rw [(visits c member).header]
  · intro c member
    rw [same c member]; exact kept
  · refine List.Pairwise.imp_of_mem (R := fun _ _ => True) (fun {c c'} member member' _ => ?_)
      (List.pairwise_of_forall fun _ _ => trivial)
    rw [same c member,(visits c' member').header]

theorem getIblockCCalls_cases : getIblockCCalls s q saveH savechanges = [] ∨
    ∃ u : Mount,u.vol.hblock = s.vol.hblock ∧ getIblockCCalls s q saveH savechanges = [⟨u.indexed q,q,saveH⟩] := by
  unfold getIblockCCalls
  split
  · split
    · dsimp only
      split
      · exact .inl rfl
      · exact .inr ⟨saveIblockC s,saveIblockC_hblock s,rfl⟩
    · exact .inr ⟨s,rfl,rfl⟩
  · exact .inl rfl

theorem getIblockCCalls_visits {i : UInt32} (exist : i.toNat < s.vol.hblock.nextInode.toNat) :
    ∀ c ∈ getIblockCCalls s (i / 32) saveH savechanges,c.Visits s.vol.hblock := by
  intro c member
  rcases @getIblockCCalls_cases s (i / 32) saveH savechanges with none | ⟨u,same,one⟩
  · rw [none] at member
    cases member
  · rw [one] at member
    cases List.mem_singleton.mp member
    exact ⟨same,i.toNat,exist,by rw [UInt32.toNat_div]; rfl⟩

theorem getIblockC_calls (run : getIblockC s q saveH savechanges = some t) :
    getIblockCCalls s q saveH savechanges = [] ∧ t.vol.hblock = s.vol.hblock ∨
      ∃ c : IblockCall,getIblockCCalls s q saveH savechanges = [c] ∧ c.state.vol.hblock = s.vol.hblock ∧
        c.ibindex = q ∧ t.vol.hblock = c.after := by
  unfold getIblockC at run
  unfold getIblockCCalls
  by_cases miss : q ≠ s.vol.icindex
  · rw [if_pos miss] at run ⊢
    cases savechanges with
    | true =>
        simp only [if_true] at run ⊢
        split at run
        · rename_i failed
          cases run
          rw [if_pos failed]
          exact .inl ⟨rfl,saveIblockC_hblock s⟩
        · rename_i success
          rw [if_neg success]
          exact .inr ⟨_,rfl,saveIblockC_hblock s,rfl,cacheIblock_hblock run⟩
    | false =>
        simp only [Bool.false_eq_true,if_false] at run ⊢
        exact .inr ⟨_,rfl,rfl,rfl,cacheIblock_hblock run⟩
  · rw [if_neg miss] at run ⊢
    cases run
    exact .inl ⟨rfl,rfl⟩

theorem getIblockC_stays {i : UInt32} (stocked : s.vol.hblock.Stocked) (exist : i.toNat < s.vol.hblock.nextInode.toNat)
    (run : getIblockC s (i / 32) saveH savechanges = some t) : t.vol.hblock = s.vol.hblock := by
  rcases getIblockC_calls run with ⟨_,same⟩ | ⟨c,_,header,index,after⟩
  · exact same
  · have inside : c.ibindex.toNat < total c.state.vol.hblock.regs := by
      rw [header,index,UInt32.toNat_div]
      exact stocked.slot exist
    rw [after,IblockCall.after_found (by rw [header]; exact stocked) inside,header]

theorem getIblockC_served (stocked : s.vol.hblock.Stocked) (used : s.vol.hblock.nextBlock ≠ 0)
    (bound : q.toNat ≤ total s.vol.hblock.regs) (run : getIblockC s q saveH savechanges = some t) :
    Served s.vol.hblock t.vol.hblock (getIblockCCalls s q saveH savechanges) ∧ t.vol.hblock.Stocked ∧
      t.vol.hblock.nextInode = s.vol.hblock.nextInode := by
  rcases getIblockC_calls run with ⟨none,same⟩ | ⟨c,one,header,index,after⟩
  · rw [none,same]
    exact ⟨.none (List.prefix_refl _),stocked,rfl⟩
  · have steady : c.Sustained := by
      rw [← index,← header] at bound
      rw [← header] at stocked used
      rcases bound.lt_or_eq with inside | next
      · exact IblockCall.steady_found stocked inside
      · exact IblockCall.steady_next stocked used next
    rw [one,after]
    refine ⟨.single steady ?_ (List.prefix_refl _),steady.restocked,?_⟩
    · rw [header]
    · rw [steady.nextInode,header]

end Calls

namespace Mount
variable {s : Mount}

theorem findInDirRCalls_visits (v : s.Valid) {diindex : UInt32} (a : s.image.Attached diindex.toNat) :
    ∀ c ∈ findInDirRCalls s diindex,c.Visits s.vol.hblock := by
  have exist := (a.alive v.good).1
  rw [image_length] at exist
  exact getIblockCCalls_visits exist

theorem findFileLoopCalls_visits (v : s.Valid) (sound : s.disk.Sound) (cursor : List UInt8) (noNul : 0 ∉ cursor)
    (parent : UInt32) (a : s.image.Attached parent.toNat) :
    ∀ c ∈ findFileLoopCalls s parent cursor,c.Visits s.vol.hblock := by
  induction size : cursor.length using Nat.strongRecOn generalizing cursor s parent with
  | ind size ih =>
    have name_take : cursor.take (cursor.takeWhile (· ≠ slash)).length = cursor.takeWhile (· ≠ slash) :=
      List.prefix_iff_eq_take.mp (List.takeWhile_prefix _) |>.symm
    have long : (cursor.takeWhile (· ≠ slash)).length ≤ cursor.length := (List.takeWhile_prefix _).length_le
    have clean : 0 ∉ cursor.take (cursor.takeWhile (· ≠ slash)).length :=
      fun member => noNul (List.mem_of_mem_take member)
    intro c member
    rw [findFileLoopCalls] at member
    split at member
    · cases member
    · obtain ⟨s₁,child,run,looked,_,found⟩ := findInDirR_look v sound a long clean
      rw [name_take] at found
      rw [run] at member
      rcases List.mem_append.mp member with first | rest
      · exact findInDirRCalls_visits v a c first
      · dsimp only at rest
        split at rest
        · cases rest
        · rename_i real
          split at rest
          · cases rest
          · rename_i first tail more
            rcases found with ⟨_,result⟩ | ⟨_,_,none,_⟩
            · cases hit : s.image.lookup parent.toNat (cursor.takeWhile (· ≠ slash)) with
              | error e =>
                  rw [hit] at result
                  exact (real result.1).elim
              | ok i =>
                  rw [hit] at result
                  have attached : s.image.Attached child.toNat := by rw [result.1]; exact a.lookup v.good hit
                  have shorter := walk_shorter cursor tail first more
                  have tail_clean : 0 ∉ List.dropWhile (· = slash) (first :: tail) := by
                    intro member
                    have behind := (List.dropWhile_suffix _).subset member
                    rw [← more] at behind
                    exact noNul ((List.dropWhile_suffix _).subset behind)
                  have visits := ih _ (by omega) looked.valid (looked.toSame.sound sound) _ tail_clean child
                    (by rw [looked.image v]; exact attached) rfl c rest
                  rwa [looked.hblock] at visits
            · exact (real none).elim

theorem findFileCalls_visits (v : s.Valid) (sound : s.disk.Sound) (path : List UInt8) (noNul : 0 ∉ path) :
    ∀ c ∈ findFileCalls s path,c.Visits s.vol.hblock := by
  intro c member
  unfold findFileCalls at member
  split at member
  · cases member
  · have root : (0 : UInt32).toNat < s.vol.hblock.nextInode.toNat := by simpa using v.ok.root.1
    obtain ⟨s₁,run,looked,_⟩ := getIblockC_inode v sound root false
    have run₀ : getIblockC s 0 false false = some s₁ := run
    rw [run₀] at member
    rcases List.mem_append.mp member with first | rest
    · exact getIblockCCalls_visits (i := 0) root c first
    · have visits := findFileLoopCalls_visits looked.valid (looked.toSame.sound sound) path noNul 0 .root c rest
      rwa [looked.hblock] at visits

theorem found_exists (v : s.Valid) {s' : Mount} {r : UInt32} {p : Option UInt32} {path : List UInt8} (same : Same s s')
    (result : Resolved s s' r p (s.image.resolve path)) (success : s'.vol.outcome = .success) :
    r.toNat < s'.vol.hblock.nextInode.toNat := by
  rcases result with ⟨_,found⟩ | ⟨_,_,_,_,failed⟩
  · cases hit : s.image.resolve path with
    | error e =>
        rw [hit] at found
        exact ((Image.resolve_error hit).1 (found.2.2.symm.trans success)).elim
    | ok r' =>
        rw [hit] at found
        have exist := ((Image.resolve_attached (i := r'.1) (p := r'.2) v.good hit).alive v.good).1
        rw [image_length] at exist
        rw [same.hblock,found.1]
        exact exist
  · rw [failed] at success
    cases success

theorem openCalls_visits (v : s.Valid) (sound : s.disk.Sound) (path : Path) :
    ∀ c ∈ openCalls s path.bytes,c.Visits s.vol.hblock := by
  intro c member
  obtain ⟨s₁,r,p,run,looked,_,result⟩ := findFile_look v sound path.bytes path.noNul
  unfold openCalls at member
  rw [run] at member
  rcases List.mem_append.mp member with first | rest
  · exact findFileCalls_visits v sound path.bytes path.noNul c first
  · dsimp only at rest
    split at rest
    · cases rest
    · rename_i success
      have visits := getIblockCCalls_visits (found_exists v looked.toSame result (not_not.mp success)) c rest
      rwa [looked.hblock] at visits

-- The header but for the frontier.
def shelf (s : Mount) : HBlock := {s.vol.hblock with nextBlock := 0}

section Shelf
variable {s t : Mount}

theorem shelf_regs (same : t.shelf = s.shelf) : t.vol.hblock.regs = s.vol.hblock.regs := by
  have regs : t.shelf.regs = s.shelf.regs := by rw [same]
  exact regs

theorem shelf_nextInode (same : t.shelf = s.shelf) : t.vol.hblock.nextInode = s.vol.hblock.nextInode := by
  have count : t.shelf.nextInode = s.shelf.nextInode := by rw [same]
  exact count

theorem shelf_stocked (same : t.shelf = s.shelf) (stocked : s.vol.hblock.Stocked) : t.vol.hblock.Stocked := by
  have whole : s.shelf.Stocked := ⟨stocked.separator,stocked.tidy,stocked.ilen,stocked.inodes⟩
  rw [← same] at whole
  exact ⟨whole.separator,whole.tidy,whole.ilen,whole.inodes⟩

theorem setCached_shelf (s : Mount) (i : UInt32) (n : Inode) : (s.setCached i n).shelf = s.shelf := rfl
theorem setEntry_shelf (s : Mount) (k : Nat) (e : DirEntry) : (s.setEntry k e).shelf = s.shelf := rfl

theorem wrOutcome_shelf (r : Mount × Bool) : (Mount.wrOutcome r).shelf = r.1.shelf := by
  obtain ⟨s,done⟩ := r
  cases done <;> rfl

theorem saveDblockC_shelf (s : Mount) : (saveDblockC s).shelf = s.shelf := wrOutcome_shelf _

theorem loadDblockC_shelf (s : Mount) (a : UInt32) (dry : Bool) : (loadDblockC s a dry).shelf = s.shelf := by
  unfold loadDblockC
  split
  · split
    · rfl
    · split
      · rename_i read
        have same := congrArg (fun h => {h with nextBlock := 0}) (rblk_hblock read)
        exact same
      · rename_i read
        have same := congrArg (fun h => {h with nextBlock := 0}) (rblk_hblock read)
        exact same
  · rfl

theorem findFreeRegion_shelf {rsz : UInt8} {a : UInt32} (run : findFreeRegion s rsz false = some (t,a)) :
    t.shelf = s.shelf := by
  unfold shelf
  rcases findFreeRegion_hblock run with ⟨_,_,same⟩ | ⟨_,_,same⟩
  · rw [same]
  · rw [same]

theorem initInode_shelf {i : UInt32} {ftype fperm : UInt8} (run : initInode s i ftype fperm = some t) :
    t.shelf = s.shelf := by
  unfold initInode at run
  dsimp only at run
  split at run
  · obtain ⟨⟨u,a⟩,region,run⟩ := Option.bind_eq_some_iff.mp run
    have taken := findFreeRegion_shelf region
    dsimp only at run
    split at run
    · cases run
      exact taken
    · cases run
      exact taken
  · cases run
    rfl

theorem populateDir_shelf (s : Mount) (i p : UInt32) : (populateDir s i p).shelf = s.shelf := by
  unfold populateDir
  dsimp only
  rw [saveDblockC_shelf,setCached_shelf,setEntry_shelf,setEntry_shelf,loadDblockC_shelf]

theorem addDirEntry_shelf {name : List UInt8} {d c : UInt32} (run : addDirEntry s name d c = some t) :
    t.shelf = s.shelf := by
  unfold addDirEntry addDirEntryFrom at run
  dsimp only at run
  split at run
  · split at run
    · cases run
      exact loadDblockC_shelf ..
    · split at run
      · cases run
        exact (saveDblockC_shelf _).trans (loadDblockC_shelf ..)
      · cases run
        exact (saveDblockC_shelf _).trans (loadDblockC_shelf ..)
  · split at run
    · cases run
      rfl
    · obtain ⟨⟨u,a⟩,region,run⟩ := Option.bind_eq_some_iff.mp run
      have taken := findFreeRegion_shelf region
      dsimp only at run
      split at run
      · cases run
        exact taken
      · split at run
        · cases run
        · cases run
          exact (saveDblockC_shelf _).trans ((loadDblockC_shelf ..).trans taken)

theorem finishCreate_regs (s : Mount) : (finishCreate s).vol.hblock.regs = s.vol.hblock.regs := by
  unfold finishCreate
  rw [saveHblock_hblock]
  show (saveIblockC s).vol.hblock.regs = _
  rw [saveIblockC_hblock]

end Shelf

section Creation
variable {s t : Mount}

theorem linkNew_served {name : List UInt8} {parent iindex : UInt32} {ftype : UInt8} (stocked : s.vol.hblock.Stocked)
    (exist : parent.toNat < s.vol.hblock.nextInode.toNat) (run : linkNew s name parent iindex ftype = some t) :
    Served s.vol.hblock t.vol.hblock (linkNewCalls s parent iindex ftype) := by
  unfold linkNew at run
  unfold linkNewCalls
  split at run
  · rename_i failed
    cases run
    rw [if_pos failed]
    exact .none (List.prefix_refl _)
  · rename_i success
    rw [if_neg success]
    have populated : (if ftype = ftypeDir then populateDir s iindex parent else s).shelf = s.shelf := by
      split
      · exact populateDir_shelf s iindex parent
      · rfl
    generalize (if ftype = ftypeDir then populateDir s iindex parent else s) = u at populated run
    have regs := shelf_regs populated
    dsimp only at run ⊢
    split at run
    · rename_i inner
      rw [if_pos inner]
      have stocked' := shelf_stocked populated stocked
      have exist' : parent.toNat < u.vol.hblock.nextInode.toNat := by rw [shelf_nextInode populated]; exact exist
      obtain ⟨u₁,back,rest⟩ := Option.bind_eq_some_iff.mp run
      have same := getIblockC_stays stocked' exist' back
      have visits : u.vol.hblock.regs <+: t.vol.hblock.regs →
          Served u.vol.hblock t.vol.hblock (getIblockCCalls u (parent / 32) false true) :=
        served_visits stocked' (getIblockCCalls_visits exist')
      have ends : t.vol.hblock.regs = u.vol.hblock.regs := by
        split at rest
        · cases rest
          rw [same]
        · obtain ⟨u₂,added,rest⟩ := Option.bind_eq_some_iff.mp rest
          cases rest
          rw [finishCreate_regs,shelf_regs (addDirEntry_shelf added),same]
      exact (visits (by rw [ends])).regs regs
    · rename_i root
      rw [if_neg root]
      cases run
      refine .none ?_
      rw [finishCreate_regs,regs]

theorem createFile_served {name : List UInt8} {parent : UInt32} {ftype : UInt8} (v : s.Mid)
    (exist : parent.toNat < s.vol.hblock.nextInode.toNat) (run : createFile s name parent ftype = some t) :
    Served s.vol.hblock t.vol.hblock (createFileCalls s parent ftype) := by
  rw [createFile_eq] at run
  obtain ⟨s₁,first,rest⟩ := Option.bind_eq_some_iff.mp run
  obtain ⟨served,stocked,count⟩ := getIblockC_served v.stocked (frontier_ne_zero v)
    (by rw [UInt32.toNat_div]; exact v.stocked.next) first
  unfold createFileCalls
  dsimp only
  rw [first]
  refine served.append ?_
  dsimp only
  split at rest
  · rename_i failed
    cases rest
    rw [if_pos failed]
    exact .none (List.prefix_refl _)
  · rename_i success
    rw [if_neg success]
    obtain ⟨s₂,fresh,rest⟩ := Option.bind_eq_some_iff.mp rest
    have shelf := (setCached_shelf s₂ s.vol.hblock.nextInode
      {s₂.cached s.vol.hblock.nextInode with iparent := parent}).trans (initInode_shelf fresh)
    rw [fresh]
    have linked := linkNew_served (shelf_stocked shelf stocked) (by rw [shelf_nextInode shelf,count]; exact exist) rest
    exact linked.regs (shelf_regs shelf)

theorem create_served (v : s.Valid) (sound : s.disk.Sound) {ftype : UInt8} {path : Path} {r : Bool}
    (kept : s.vol.hblock.regs <+: t.vol.hblock.regs) (run : create s ftype path = some (t,r)) :
    Served s.vol.hblock t.vol.hblock (createCalls s ftype path.bytes) := by
  obtain ⟨s₁,_,_,look,looked,_,_⟩ := findFile_look v sound path.bytes path.noNul
  have first : ∀ {h' : HBlock},s.vol.hblock.regs <+: h'.regs → Served s.vol.hblock h' (findFileCalls s path.bytes) :=
    served_visits v.toMid.stocked (findFileCalls_visits v sound path.bytes path.noNul)
  have still : s₁.vol.hblock = s.vol.hblock := looked.hblock
  have root : (0 : UInt32).toNat < s₁.vol.hblock.nextInode.toNat := by simpa using looked.valid.ok.root.1
  unfold create at run
  unfold createCalls
  dsimp only at run ⊢
  rw [look] at run ⊢
  simp only [Option.bind_eq_bind,Option.bind_some] at run
  dsimp only at run ⊢
  -- Behind the lookup the calls go on from its header.
  have behind : ∀ {calls : List IblockCall},Served s₁.vol.hblock t.vol.hblock calls →
      Served s.vol.hblock t.vol.hblock (findFileCalls s path.bytes ++ calls) :=
    fun rest => (first (by rw [still])).append rest
  refine behind ?_
  have kept₁ : s₁.vol.hblock.regs <+: t.vol.hblock.regs := by rw [still]; exact kept
  split at run
  · rename_i success
    rw [if_pos (.inl (by rw [success]; decide))]
    exact .none kept₁
  · split at run
    · rename_i other
      rw [if_pos (.inl other)]
      exact .none kept₁
    · rename_i noFile
      split at run
      · rename_i trailing
        rw [if_pos (.inr trailing)]
        exact .none kept₁
      · rename_i plain
        rw [if_neg (not_or.mpr ⟨noFile,plain⟩)]
        split at run
        · rename_i top
          rw [if_pos top]
          obtain ⟨s₂,made,rest⟩ := Option.bind_eq_some_iff.mp run
          cases rest
          exact createFile_served looked.valid.toMid root made
        · rename_i deep
          rw [if_neg deep]
          have noNul : 0 ∉ path.bytes.take (stripBack path.bytes (splitBack path.bytes (path.bytes.length - 1)) + 1) :=
            fun member => path.noNul (List.mem_of_mem_take member)
          have sound₁ := looked.toSame.sound sound
          obtain ⟨s₂,p,_,look₂,looked₂,_,result⟩ := findFile_look looked.valid sound₁ _ noNul
          have second : ∀ {h' : HBlock},s₁.vol.hblock.regs <+: h'.regs → Served s₁.vol.hblock h' (findFileCalls s₁ _) :=
            served_visits looked.valid.toMid.stocked (findFileCalls_visits looked.valid sound₁ _ noNul)
          rw [look₂] at run ⊢
          simp only [Option.bind_some] at run
          have twice := second (by rw [looked₂.hblock] : s₁.vol.hblock.regs <+: s₂.vol.hblock.regs)
          refine twice.append ?_
          dsimp only
          split at run
          · rename_i failed
            rw [if_pos failed,looked₂.hblock]
            exact .none kept₁
          · rename_i success
            rw [if_neg success]
            obtain ⟨s₃,made,rest⟩ := Option.bind_eq_some_iff.mp run
            cases rest
            exact createFile_served looked₂.valid.toMid
              (found_exists looked.valid looked₂.toSame result (not_not.mp success)) made

end Creation

theorem exec_served {s t : Mount} (v : s.Valid) (works : s.disk.Works) {op : Op} (fits : op.Fits s)
    (run : op.exec s = some t) : Served s.vol.hblock t.vol.hblock (op.iblockCalls s) := by
  have kept : s.vol.hblock.regs <+: t.vol.hblock.regs := by
    obtain ⟨t',run',_,_,_,image⟩ := exec_spec v works fits
    cases run'.symm.trans run
    have grown := (Image.apply_extends v.good op).iregs
    rw [← image] at grown
    exact grown
  have opened : ∀ path : Path,Served s.vol.hblock t.vol.hblock (openCalls s path.bytes) := fun path =>
    served_visits v.toMid.stocked (openCalls_visits v works.sound path) kept
  cases op with
  | create ftype path =>
      obtain ⟨⟨t',r⟩,made,same⟩ := Option.map_eq_some_iff.mp run
      cases same
      exact create_served v works.sound kept made
  | write path _ _ _ => exact opened path
  | read path _ _ => exact opened path
  | isftype path _ => exact opened path
  | ls path _ => exact opened path

-- A run of operations and all its calls of fs2_get_iblock, from the first to the last.
inductive Calls : Mount → List IblockCall → Prop where
  | format {s : Mount} : s.Formatted → Calls s []
  | step {s t : Mount} {calls : List IblockCall} {op : Op} : Calls s calls → op.Fits s → op.exec s = some t →
      Calls t (calls ++ op.iblockCalls s)

theorem Calls.history {s : Mount} {calls : List IblockCall} (run : Calls s calls) : History AnyOp s := by
  induction run with
  | format formatted => exact .format formatted
  | step _ fits exec ih => exact .step ih fits trivial exec

theorem Calls.served {s : Mount} {calls : List IblockCall} (run : Calls s calls) :
    ∃ h : HBlock,Served h s.vol.hblock calls := by
  induction run with
  | format _ => exact ⟨_,.none (List.prefix_refl _)⟩
  | step before fits exec ih =>
      obtain ⟨h,served⟩ := ih
      obtain ⟨v,works⟩ := before.history.valid
      exact ⟨h,served.append (exec_served v works fits exec)⟩

-- In every run each call asks for a block of the table or for the next one, and the
-- address that it returns is the one of the block from then on, for find_blk and for
-- every later call.
theorem inode_blocks_stay {s : Mount} {calls : List IblockCall} (run : Calls s calls) :
    (∀ c ∈ calls,c.Answered) ∧
    (∀ c ∈ calls,∀ ibaddr,c.Returns ibaddr → s.vol.hblock.blk c.ibindex.toNat = ibaddr) ∧
    calls.Pairwise fun c c' => ∀ ibaddr,c.Returns ibaddr → c'.state.vol.hblock.blk c.ibindex.toNat = ibaddr ∧
      (c'.ibindex = c.ibindex → ∀ ibaddr',c'.Returns ibaddr' → ibaddr' = ibaddr) := by
  obtain ⟨h,served⟩ := run.served
  have separator := run.history.valid.1.sep.separator
  refine ⟨fun c member => (served.steady c member).toAnswered,?_,?_⟩
  · intro c member ibaddr returns
    exact (served.steady c member).lasts returns separator (served.last c member)
  · refine served.order.imp_of_mem fun {c c'} member member' more ibaddr returns => ?_
    have steady := served.steady c member
    have steady' := served.steady c' member'
    refine ⟨steady.lasts returns steady'.stocked.separator more,fun index ibaddr' returns' => ?_⟩
    rw [← steady'.address ibaddr' returns',index]
    exact steady.lasts returns steady'.restocked.separator (more.trans steady'.kept)

-- An inode behind the last block of the table: its creation asks for the next block.
theorem createFileCalls_next {s : Mount} (v : s.Valid) (works : s.disk.Works) (placed : s.Placed)
    (ends : s.itable.length = s.vol.hblock.nextInode.toNat / 32) {m : Image} (enough : s.image.needIblock = .ok m)
    (parent : UInt32) (ftype : UInt8) : ∃ c ∈ createFileCalls s parent ftype,c.ibindex = s.vol.hblock.nextInode / 32 ∧
      c.state.vol.hblock = s.vol.hblock ∧ ∃ ibaddr,c.Returns ibaddr := by
  have miss : s.vol.hblock.nextInode / 32 ≠ s.vol.icindex := by
    intro same
    have held : s.vol.icindex.toNat < s.itable.length := placed
    have index : s.vol.icindex.toNat = s.vol.hblock.nextInode.toNat / 32 := by rw [← same,UInt32.toNat_div]; rfl
    omega
  have asked : getIblockCCalls s (s.vol.hblock.nextInode / 32) true false =
      [⟨s.indexed (s.vol.hblock.nextInode / 32),s.vol.hblock.nextInode / 32,true⟩] := by
    unfold getIblockCCalls
    rw [if_pos miss]
    rfl
  refine ⟨_,List.mem_append_left _ (by rw [asked]; exact List.mem_singleton_self _),rfl,rfl,?_⟩
  obtain ⟨t,run,_,_,new⟩ := getIblockC_new v works.sound placed
  rw [enough] at new
  unfold getIblockC at run
  rw [if_pos miss,cacheIblock_eq] at run
  obtain ⟨⟨u,a⟩,answer,same⟩ := Option.map_eq_some_iff.mp run
  refine ⟨a,u,answer,?_⟩
  by_contra failed
  rw [← same] at new
  dsimp only at new
  rw [if_pos failed] at new
  exact failed new.2.1

theorem createCalls_next {s : Mount} (v : s.Valid) (works : s.disk.Works) {path : Path} (missing : s.image.resolve path.bytes = .error .noFile)
    (plain : path.bytes.getD (path.bytes.length - 1) 0 ≠ slash)
    (root : stripBack path.bytes (splitBack path.bytes (path.bytes.length - 1)) = 0)
    (ends : s.itable.length = s.vol.hblock.nextInode.toNat / 32) {m : Image} (enough : s.image.needIblock = .ok m)
    (ftype : UInt8) : ∃ c ∈ createCalls s ftype path.bytes,c.ibindex = s.vol.hblock.nextInode / 32 ∧
      c.state.vol.hblock = s.vol.hblock ∧ ∃ ibaddr,c.Returns ibaddr := by
  obtain ⟨t,r,p,run,looked,placed,result⟩ := findFile_look v works.sound path.bytes path.noNul
  have nonempty : path.bytes ≠ [] := by
    intro empty
    rw [empty] at missing
    cases missing
  have outcome : t.vol.outcome = .noFile := by
    rw [missing] at result
    rcases result with ⟨_,found⟩ | ⟨_,faulty,_⟩
    · exact found.2.2
    · exact (Works.not_faulty works faulty).elim
  obtain ⟨c,member,index,header,returns⟩ := createFileCalls_next looked.valid (Works.same works looked.toSame) (placed nonempty)
    (by rw [looked.itable_eq,looked.hblock]; exact ends) (by rw [looked.image v]; exact enough) 0 ftype
  rw [looked.hblock] at index header
  refine ⟨c,List.mem_append_right _ ?_,index,header,returns⟩
  rw [run]
  dsimp only
  rw [if_neg (by rw [outcome]; exact not_or.mpr ⟨fun wrong => wrong rfl,plain⟩),if_pos root]
  exact member

theorem Calls.runs {s : Mount} {calls : List IblockCall} (run : Calls s calls) (ops : List Op) (fits : ∀ op ∈ ops,∀ t,op.Fits t) :
    ∃ t calls',Calls t calls' ∧ t.image = ops.foldl (fun m op => op.apply m) s.image := by
  induction ops generalizing s calls with
  | nil => exact ⟨s,calls,run,rfl⟩
  | cons op rest ih =>
      obtain ⟨t,exec,_,image⟩ := run.history.next (fits op (.head _) s) trivial
      obtain ⟨u,calls',last,image'⟩ := ih (.step run (fits op (.head _) s) exec) fun op member => fits op (.tail _ member)
      exact ⟨u,calls',last,by rw [image',image]; rfl⟩

-- A root directory and 31 files: one block of the table is full. Nothing is found in a
-- directory of one block, so that the files may all be called "a".
def fullBlock : Image := (List.replicate 31 (Op.create ftypeFile fileA)).foldl (fun m op => op.apply m) (formatImage 100 3 1 1 1)

theorem fullBlock_next : fullBlock.nodes.length = 32 ∧ total fullBlock.iregs = 1 ∧
    fullBlock.resolve fileA.bytes = .error .noFile ∧ ∃ m,fullBlock.needIblock = .ok m := by
  refine ⟨by decide +kernel,by decide +kernel,by decide +kernel,?_⟩
  have room : fullBlock.needIblock.isOk = true := by decide +kernel
  cases next : fullBlock.needIblock with
  | ok m => exact ⟨m,rfl⟩
  | error e =>
      rw [next] at room
      cases room

-- One more file, and the second block of the table has got the address that it keeps.
theorem inode_blocks_stay_second : ∃ (s : Mount) (calls : List IblockCall) (c : IblockCall) (ibaddr : UInt32),Calls s calls ∧
    c ∈ calls ∧ c.ibindex = 1 ∧ total c.state.vol.hblock.regs = 1 ∧ c.Returns ibaddr ∧ s.vol.hblock.blk 1 = ibaddr ∧
    ∀ c ∈ calls,c.Answered := by
  have passes : Passes 100 1 1 1 := ⟨by decide,by decide,by decide,by decide⟩
  obtain ⟨s,formatted,image⟩ := formats 3 passes (by decide)
  obtain ⟨t,before,run,full⟩ := (Calls.format formatted).runs (List.replicate 31 (.create ftypeFile fileA)) fun op member t => by
    rw [List.eq_of_mem_replicate member]
    trivial
  have full : t.image = fullBlock := by rw [full,image]; rfl
  obtain ⟨nodes,table,missing,m,enough⟩ := fullBlock_next
  obtain ⟨v,works⟩ := run.history.valid
  have next : t.vol.hblock.nextInode = 32 := by
    refine UInt32.toNat_inj.mp ?_
    rw [← image_length,full,nodes]
    rfl
  have ends : t.itable.length = t.vol.hblock.nextInode.toNat / 32 := by
    unfold itable
    rw [length_blocks,next]
    show total t.image.iregs = 1
    rw [full,table]
  obtain ⟨c,member,index,header,ibaddr,returns⟩ := createCalls_next v works (show t.image.resolve fileA.bytes = _ by rw [full]; exact missing)
    (by decide) (by decide) ends (by rw [full]; exact enough) ftypeFile
  rw [next] at index
  have fits : Op.Fits t (.create ftypeFile fileA) := trivial
  obtain ⟨u,exec,_⟩ := run.history.next fits trivial
  have last : Calls u (before ++ Op.iblockCalls t (.create ftypeFile fileA)) := .step run fits exec
  have here : c ∈ before ++ Op.iblockCalls t (.create ftypeFile fileA) := List.mem_append_right _ member
  obtain ⟨answered,address,_⟩ := inode_blocks_stay last
  refine ⟨u,_,c,ibaddr,last,here,index,?_,returns,?_,answered⟩
  · rw [header]
    show total t.image.iregs = 1
    rw [full,table]
  · have there := address c here ibaddr returns
    rw [index] at there
    exact there

end Mount

end ArchiveOs.Fs2
