import ArchiveOs.Formats
import ArchiveOs.Writes

-- Runs of operations on a volume from its formatting on, while the disk works.
namespace ArchiveOs.Fs2
open Extents Layout

inductive Op where
  | create (ftype : UInt8) (path : Path)
  | write (path : Path) (src : Nat → UInt8) (nbytes cursor : UInt32)
  | read (path : Path) (nbytes cursor : UInt32)
  | isftype (path : Path) (ftype : UInt8)
  | ls (path : Path) (nchars : Int)

namespace Op

def exec (s : Mount) : Op → Option Mount
  | .create ftype path => (Fs2.create s ftype path).map Prod.fst
  | .write path src nbytes cursor => (Fs2.write s path src nbytes cursor).map Prod.fst
  | .read path nbytes cursor => (Fs2.read s path nbytes cursor).map Prod.fst
  | .isftype path ftype => (Fs2.isftype s path ftype).map Prod.fst
  | .ls path nchars => (Fs2.ls s path nchars).map Prod.fst

-- Only directories are listed.
def Fits (s : Mount) : Op → Prop
  | .ls path _ => ∀ i q,s.image.resolve path.bytes = .ok (i,q) → (s.image.node i).ftype = ftypeDir
  | _ => True

-- What becomes of the image.
def apply (m : Image) : Op → Image
  | .create ftype path => (m.create ftype path.bytes).1
  | .write path _ nbytes cursor => (m.write path.bytes nbytes cursor).1
  | _ => m

end Op

namespace Mount

-- A volume that has just been formatted, by way of a structure whose caches name no block.
inductive Formatted : Mount → Prop where
  | made {s s' : Mount} {nblocks : UInt32} {defaultPerms defISz defFSz defDSz : UInt8} : s.disk.Works →
      s.vol.icindex = minusOne → s.vol.dcaddr = minusOne → s.vol.xcaddr = minusOne → nblocks.toNat + 255 < 4294967296 →
      formatVolume s nblocks defaultPerms defISz defFSz defDSz = some s' → s'.vol.outcome = .success → Formatted s'

inductive History (admits : Mount → Op → Prop) : Mount → Prop where
  | format {s : Mount} : s.Formatted → History admits s
  | step {s s' : Mount} {op : Op} : History admits s → op.Fits s → admits s op → op.exec s = some s' → History admits s'

-- All operations, with any arguments.
def AnyOp (_ : Mount) (_ : Op) : Prop := True

section Step
variable {s s' : Mount}

theorem Works.dev (works : s.disk.Works) (dev : Dev s s') : s'.disk.Works :=
  ⟨fun t x => by rw [dev.rdFails]; exact works.reads t x,fun t x => by rw [dev.wrFails]; exact works.writes t x⟩

theorem Works.same (works : s.disk.Works) (same : Same s s') : s'.disk.Works :=
  ⟨fun t x => by rw [same.rdFails]; exact works.reads t x,fun t x => by rw [same.wrFails]; exact works.writes t x⟩

theorem Works.not_faulty (works : s.disk.Works) : ¬ s.disk.Faulty := by
  rintro ⟨t,x,faulty⟩
  rw [works.reads] at faulty
  cases faulty

theorem Formatted.passes {nblocks : UInt32} {defaultPerms defISz defFSz defDSz : UInt8}
    (run : formatVolume s nblocks defaultPerms defISz defFSz defDSz = some s') (success : s'.vol.outcome = .success) :
    Passes nblocks defISz defFSz defDSz := by
  unfold formatVolume at run
  split at run
  · cases run
    cases success
  · rename_i fine
    rw [not_or,not_or,not_or] at fine
    exact ⟨by omega,fine.2.2.2,fine.2.2.1,fine.2.1⟩

theorem Formatted.valid (formatted : s.Formatted) : s.Valid ∧ s.disk.Works := by
  cases formatted with
  | @made before _ _ _ _ _ _ works icindex _ xcaddr room run success =>
      have miss : before.vol.icindex ≠ 0 := by rw [icindex]; decide
      obtain ⟨t,run',_,valid,_,_,rdFails,wrFails⟩ :=
        format_valid works.sound (Formatted.passes run success) room miss xcaddr
      cases run.symm.trans run'
      exact ⟨valid,⟨fun n x => by rw [rdFails]; exact works.reads n x,fun n x => by rw [wrFails]; exact works.writes n x⟩⟩

theorem exec_spec (v : s.Valid) (works : s.disk.Works) {op : Op} (fits : op.Fits s) :
    ∃ s',op.exec s = some s' ∧ s'.Valid ∧ s'.disk.Works ∧ s'.vol.blk0 = s.vol.blk0 ∧ s'.image = op.apply s.image := by
  have calm := Works.not_faulty works
  cases op with
  | create ftype path =>
      obtain ⟨s',r,run,ended⟩ := create_spec v works.sound ftype path (createLookups_quiet v works.sound path works.reads)
      refine ⟨s',congrArg (Option.map Prod.fst) run,?_⟩
      rcases ended with ⟨grew,valid,image,_⟩ | ⟨stopped,_⟩
      · exact ⟨valid,Works.dev works grew.toDev,grew.blk0,image⟩
      · exact (calm stopped.faulty).elim
  | write path src nbytes cursor =>
      obtain ⟨s',r,run,ended⟩ := write_spec v works.sound path src nbytes cursor fun _ t => works.reads t _
      refine ⟨s',congrArg (Option.map Prod.fst) run,?_⟩
      rcases ended with ⟨written,_⟩ | ⟨halted,_⟩
      · exact ⟨written.valid,Works.dev works written.toDev,written.blk0,written.image⟩
      · exact (calm halted.faulty).elim
  | read path nbytes cursor =>
      obtain ⟨s',r,run,viewed⟩ := read_view v works.sound path nbytes cursor
      exact ⟨s',congrArg (Option.map Prod.fst) run,viewed.valid,Works.same works viewed.toSame,viewed.blk0,viewed.image v⟩
  | isftype path ftype =>
      obtain ⟨s',r,run,ended⟩ := isftype_look v works.sound path ftype
      refine ⟨s',congrArg (Option.map Prod.fst) run,?_⟩
      rcases ended with ⟨looked,_⟩ | ⟨stopped,_⟩
      · exact ⟨looked.valid,Works.same works looked.toSame,looked.blk0,looked.image v⟩
      · exact (calm stopped.faulty).elim
  | ls path nchars =>
      obtain ⟨s',r,run,ended⟩ := ls_look v works.sound path nchars fits
      refine ⟨s',congrArg (Option.map Prod.fst) run,?_⟩
      rcases ended with ⟨looked,_⟩ | ⟨stopped,_⟩
      · exact ⟨looked.valid,Works.same works looked.toSame,looked.blk0,looked.image v⟩
      · exact (calm stopped.faulty).elim

end Step

theorem History.valid {admits : Mount → Op → Prop} {s : Mount} (history : History admits s) :
    s.Valid ∧ s.disk.Works := by
  induction history with
  | format formatted => exact formatted.valid
  | step _ fits _ run ih =>
      obtain ⟨t,run',valid,works,_⟩ := exec_spec ih.1 ih.2 fits
      cases run.symm.trans run'
      exact ⟨valid,works⟩

theorem formats {nblocks : UInt32} {defISz defFSz defDSz : UInt8} (defaultPerms : UInt8)
    (passes : Passes nblocks defISz defFSz defDSz) (room : nblocks.toNat + 255 < 4294967296) :
    ∃ s : Mount,s.Formatted ∧ s.image = formatImage nblocks defaultPerms defISz defFSz defDSz := by
  obtain ⟨s,run,success,_,image,_⟩ := format_valid (s := ⟨unloadedVolume,zeroDisk⟩)
    zeroDisk_works.sound passes room (by decide) rfl
  exact ⟨s,.made zeroDisk_works rfl rfl rfl room run success,image⟩

theorem History.next {admits : Mount → Op → Prop} {s : Mount} (history : History admits s) {op : Op} (fits : op.Fits s)
    (admitted : admits s op) : ∃ s',op.exec s = some s' ∧ History admits s' ∧ s'.image = op.apply s.image := by
  obtain ⟨s',run,_,_,_,image⟩ := exec_spec history.valid.1 history.valid.2 fits
  exact ⟨s',run,.step history fits admitted run,image⟩

def fileA : Path := ⟨[0x61],by decide⟩

-- The region table of the inode table (`none`) or of an inode, in the inode cache if it
-- is there, and who counts.
def table (s : Mount) : Option Nat → List (UInt32 × UInt8)
  | none => s.vol.hblock.rows
  | some i => (s.inode i).rows

-- Row k of the table has a region of positive length.
structure Owns (s : Mount) (o : Option Nat) (k start len : Nat) : Prop where
  counts : ∀ i,o = some i → i < s.vol.hblock.nextInode.toNat
  row : (s.table o)[k]? = some (UInt32.ofNat start,UInt8.ofNat len)
  used : 0 < start ∧ start < 4294967296
  full : 0 < len ∧ len < 256

theorem Owns.own {s : Mount} (v : s.Mid) {o : Option Nat} {k start len : Nat} (owns : s.Owns o k start len) :
    (s.image.own o)[k]? = some ⟨start,len⟩ := by
  have word : (UInt32.ofNat start).toNat = start := UInt32.toNat_ofNat_of_lt' owns.used.2
  have byte : (UInt8.ofNat len).toNat = len := UInt8.toNat_ofNat_of_lt' owns.full.2
  have used : UInt32.ofNat start ≠ 0 := by
    intro zero
    rw [zero] at word
    have positive := owns.used.1
    have none : (0 : UInt32).toNat = 0 := rfl
    omega
  have row := owns.row
  cases o with
  | none =>
      have found := regions_row v.htidy row used
      rw [word,byte] at found
      exact found
  | some i =>
      have h := owns.counts i rfl
      have found := regions_row (v.itidy i h) row used
      rw [word,byte] at found
      show (s.image.node i).regs[k]? = _
      rw [s.image_node h]
      exact found

-- No block is handed out twice, and never the header.
theorem regions_disjoint {s : Mount} (history : History AnyOp s) :
    1 ≤ s.vol.hblock.nextBlock.toNat ∧ s.vol.hblock.nextBlock.toNat ≤ s.vol.hblock.nblocks.toNat ∧
    (∀ o k start len,s.Owns o k start len → 1 ≤ start ∧ start + len ≤ s.vol.hblock.nextBlock.toNat) ∧
    ∀ o k start len o' k' start' len',s.Owns o k start len → s.Owns o' k' start' len' → (o,k) ≠ (o',k') →
      start + len ≤ start' ∨ start' + len' ≤ start := by
  have v := history.valid.1.toMid
  refine ⟨v.ok.lower,v.ok.upper,?_,?_⟩
  · intro o k start len owns
    exact v.ok.packed.bounds (List.mem_of_getElem? (owns.own v)) owns.full.1
  · intro o k start len o' k' start' len' owns owns' other
    exact v.ok.packed.ordered (owns.own v) (owns'.own v) other owns.full.1 owns'.full.1

theorem Owns.of_own {s : Mount} {o : Option Nat} {k : Nat} {r : Region}
    (counts : ∀ i,o = some i → i < s.vol.hblock.nextInode.toNat) (found : (s.image.own o)[k]? = some r) (full : 0 < r.len) :
    s.Owns o k r.start r.len := by
  have regs : s.image.own o = regions (s.table o) := by
    cases o with
    | none => rfl
    | some i =>
        show (s.image.node i).regs = _
        rw [s.image_node (counts i rfl)]
        rfl
  rw [regs] at found
  obtain ⟨inside,value⟩ := List.getElem?_eq_some_iff.mp found
  obtain ⟨start,len,row,used,same⟩ := rows_used (s.table o) inside
  rw [value] at same
  subst same
  have positive : 0 < start.toNat := Nat.pos_of_ne_zero fun zero => used (UInt32.toNat_inj.mp zero)
  exact ⟨counts,by rw [row,UInt32.ofNat_toNat,UInt8.ofNat_toNat],⟨positive,start.toNat_lt⟩,full,len.toNat_lt⟩

-- The table of inodes, the root and a directory in it have a region each.
theorem regions_disjoint_made : ∃ s : Mount,History AnyOp s ∧ s.Owns none 0 1 4 ∧ s.Owns (some 0) 0 5 2 ∧ s.Owns (some 1) 0 7 2 ∧
    7 + 2 ≤ s.vol.hblock.nextBlock.toNat ∧ (5 + 2 ≤ 7 ∨ 7 + 2 ≤ 5) := by
  obtain ⟨s,formatted,image⟩ := formats 3 passes_boot (by decide)
  obtain ⟨t,_,history,after⟩ := (History.format formatted : History AnyOp s).next
    (show Op.Fits s (.create ftypeDir fileA) from trivial) trivial
  rw [image] at after
  have count : t.vol.hblock.nextInode.toNat = 2 := by
    rw [← image_length,after]
    decide +kernel
  have inodes : t.Owns none 0 1 4 := .of_own (r := ⟨1,4⟩) (fun i none => nomatch none) (by rw [after]; decide +kernel) (by decide)
  have root : t.Owns (some 0) 0 5 2 := .of_own (r := ⟨5,2⟩)
    (fun i same => by rw [count,← Option.some.inj same]; decide) (by rw [after]; decide +kernel) (by decide)
  have made : t.Owns (some 1) 0 7 2 := .of_own (r := ⟨7,2⟩)
    (fun i same => by rw [count,← Option.some.inj same]; decide) (by rw [after]; decide +kernel) (by decide)
  obtain ⟨_,_,bounds,disjoint⟩ := regions_disjoint history
  exact ⟨t,history,inodes,root,made,(bounds _ _ _ _ made).2,disjoint _ _ _ _ _ _ _ _ root made (by decide)⟩

end Mount
end ArchiveOs.Fs2
