import ArchiveOs.Boots
import ArchiveOs.Switches

-- The set of live processes, their pids and their stacks.
namespace ArchiveOs.Kernel
open Fs2
open Prog

namespace Procs
variable {v : Procs}

-- What a process keeps as long as it lives.
@[ext] structure Roster where
  alloc : UInt32
  areas : List UInt32
  pid : Fin pcbSize → Fin pcbSize
  stack : Fin pcbSize → UInt32

def roster (v : Procs) : Roster := ⟨v.alloc,v.areas,fun i => (v.pcb i).pid,fun i => (v.pcb i).stack⟩

theorem roster_setPcb (v : Procs) (i : Fin pcbSize) {f : Proc → Proc} (pid : ∀ p,(f p).pid = p.pid)
    (stack : ∀ p,(f p).stack = p.stack) : (v.setPcb i f).roster = v.roster := by
  refine Roster.ext rfl rfl (funext fun j => ?_) (funext fun j => ?_)
  · by_cases here : j = i
    · subst here
      exact (congrArg Proc.pid (setPcb_self ..)).trans (pid _)
    · exact congrArg Proc.pid (setPcb_other v f here)
  · by_cases here : j = i
    · subst here
      exact (congrArg Proc.stack (setPcb_self ..)).trans (stack _)
    · exact congrArg Proc.stack (setPcb_other v f here)

theorem roster_switchTo (v : Procs) (i : Fin pcbSize) (st : Status) : (v.switchTo i st).roster = v.roster := by
  have new := roster_setPcb ({(v.setPcb v.current fun p => {p with saved := v.regs,status := st}) with
    regs := ((v.setPcb v.current fun p => {p with saved := v.regs,status := st}).pcb i).saved}) i
    (f := fun p => {p with status := .executing}) (fun _ => rfl) fun _ => rfl
  have old : (v.setPcb v.current fun p => {p with saved := v.regs,status := st}).roster = v.roster :=
    roster_setPcb v v.current (fun _ => rfl) fun _ => rfl
  exact new.trans old

theorem roster_next (v : Procs) (st : Status) : (v.next st).roster = v.roster := by
  unfold next
  split
  · rfl
  · exact roster_switchTo ..

theorem roster_doSemPost (v : Procs) (semId x : UInt32) : (v.doSemPost semId x).roster = v.roster := by
  unfold doSemPost post
  split
  · split
    · rfl
    · split
      · exact roster_setPcb _ _ (fun _ => rfl) fun _ => rfl
      · rfl
  · rfl

theorem roster_block (v : Procs) (semId x : UInt32) : (v.block semId x).roster = v.roster :=
  roster_setPcb v v.current (fun _ => rfl) fun _ => rfl

theorem roster_saveRegs (v : Procs) : v.saveRegs.roster = v.roster :=
  roster_setPcb v v.current (fun _ => rfl) fun _ => rfl

-- A process keeps its own index as its pid, and the allocator has given out the
-- stacks of the live processes, one to each.
structure Roster.Kept (r : Roster) : Prop where
  own : ∀ i,alive r.alloc i = true → r.pid i = i
  given : ∀ a,a ∈ r.areas ↔ ∃ i,alive r.alloc i = true ∧ r.stack i = a
  once : r.areas.Nodup
  apart : ∀ i j,alive r.alloc i = true → alive r.alloc j = true → r.stack i = r.stack j → i = j
  real : ∀ i,alive r.alloc i = true → r.stack i ≠ 0

def Kept (v : Procs) : Prop := v.roster.Kept

theorem Booted.kept (b : Booted v) : v.Kept := by
  have only : ∀ i,alive v.alloc i = true → i = 0 := fun i => b.only
  have zero : alive v.alloc 0 = true := by
    rw [b.alloc]
    decide
  refine ⟨?_,?_,?_,?_,?_⟩
  · intro i here
    rw [only i here]
    exact b.pid
  · intro a
    show a ∈ v.areas ↔ ∃ i,alive v.alloc i = true ∧ (v.pcb i).stack = a
    rw [b.areas,List.mem_singleton]
    constructor
    · rintro rfl
      exact ⟨0,zero,rfl⟩
    · rintro ⟨i,here,rfl⟩
      rw [only i here]
  · show v.areas.Nodup
    rw [b.areas]
    exact List.nodup_singleton _
  · intro i j one two _
    rw [only i one,only j two]
  · intro i here
    rw [only i here]
    exact b.stack

theorem Kept.leave (kept : v.Kept) {i : Fin pcbSize} (here : v.Alive i) {w : Procs} (alloc : w.alloc = v.alloc - bit i)
    (areas : w.areas = v.areas.erase (v.pcb i).stack) (same : ∀ j,(w.pcb j).pid = (v.pcb j).pid ∧
      (w.pcb j).stack = (v.pcb j).stack) : w.Kept := by
  have still : ∀ j,alive w.alloc j = true ↔ alive v.alloc j = true ∧ j ≠ i := by
    intro j
    rw [alloc,alive_sub here]
    simp
  refine ⟨?_,?_,?_,?_,?_⟩
  · intro j live
    exact ((same j).1).trans (kept.own j ((still j).mp live).1)
  · intro a
    show a ∈ w.areas ↔ ∃ j,alive w.alloc j = true ∧ (w.pcb j).stack = a
    have once : v.areas.Nodup := kept.once
    rw [areas,once.mem_erase_iff]
    constructor
    · rintro ⟨other,member⟩
      obtain ⟨j,live,rfl⟩ := (kept.given a).mp member
      refine ⟨j,(still j).mpr ⟨live,?_⟩,(same j).2⟩
      rintro rfl
      exact other rfl
    · rintro ⟨j,live,rfl⟩
      obtain ⟨live,other⟩ := (still j).mp live
      rw [(same j).2]
      exact ⟨fun equal => other (kept.apart j i live here equal),(kept.given _).mpr ⟨j,live,rfl⟩⟩
  · show w.areas.Nodup
    rw [areas]
    exact kept.once.erase _
  · intro j k one two equal
    exact kept.apart j k ((still j).mp one).1 ((still k).mp two).1
      ((same j).2.symm.trans (equal.trans (same k).2))
  · intro j live
    exact ((same j).2).trans_ne (kept.real j ((still j).mp live).1)

theorem firstFree_none (full : v.firstFree = none) (i : Fin pcbSize) : alive v.alloc i = true := by
  have test := List.find?_eq_none.mp full i (List.mem_finRange i)
  simpa using test

theorem Kept.join (kept : v.Kept) {child : Fin pcbSize} (free : alive v.alloc child = false) {stack : UInt32}
    (fresh : stack ∉ v.areas) (real : stack ≠ 0) {w : Procs} (alloc : w.alloc = v.alloc ||| bit child)
    (areas : w.areas = stack :: v.areas) (new : (w.pcb child).pid = child ∧ (w.pcb child).stack = stack)
    (same : ∀ j,j ≠ child → (w.pcb j).pid = (v.pcb j).pid ∧ (w.pcb j).stack = (v.pcb j).stack) : w.Kept := by
  have now : ∀ j,alive w.alloc j = true ↔ alive v.alloc j = true ∨ j = child := by
    intro j
    rw [alloc,alive_or]
    simp
  have old : ∀ j,alive v.alloc j = true → j ≠ child := by
    rintro j live rfl
    rw [free] at live
    cases live
  refine ⟨?_,?_,?_,?_,?_⟩
  · intro j live
    rcases (now j).mp live with live | rfl
    · exact ((same j (old j live)).1).trans (kept.own j live)
    · exact new.1
  · intro a
    show a ∈ w.areas ↔ ∃ j,alive w.alloc j = true ∧ (w.pcb j).stack = a
    rw [areas,List.mem_cons]
    constructor
    · rintro (rfl | member)
      · exact ⟨child,(now child).mpr (.inr rfl),new.2⟩
      · obtain ⟨j,live,rfl⟩ := (kept.given a).mp member
        exact ⟨j,(now j).mpr (.inl live),(same j (old j live)).2⟩
    · rintro ⟨j,live,rfl⟩
      rcases (now j).mp live with live | rfl
      · rw [(same j (old j live)).2]
        exact .inr ((kept.given _).mpr ⟨j,live,rfl⟩)
      · exact .inl new.2
  · show w.areas.Nodup
    rw [areas]
    exact List.nodup_cons.mpr ⟨fresh,kept.once⟩
  · have strange : ∀ j,alive v.alloc j = true → (w.pcb j).stack ≠ stack := by
      intro j live equal
      rw [(same j (old j live)).2] at equal
      exact fresh ((kept.given stack).mpr ⟨j,live,equal⟩)
    intro j k one two equal
    change (w.pcb j).stack = (w.pcb k).stack at equal
    rcases (now j).mp one with one | rfl <;> rcases (now k).mp two with two | rfl
    · rw [(same j (old j one)).2,(same k (old k two)).2] at equal
      exact kept.apart j k one two equal
    · rw [new.2] at equal
      exact absurd equal (strange j one)
    · rw [new.2] at equal
      exact absurd equal.symm (strange k two)
    · rfl
  · intro j live
    rcases (now j).mp live with live | rfl
    · exact ((same j (old j live)).2).trans_ne (kept.real j live)
    · exact new.2.trans_ne real

end Procs

namespace Procs
variable {v : Procs}

theorem saveRegs_pcb (v : Procs) (j : Fin pcbSize) : (v.saveRegs.pcb j).pid = (v.pcb j).pid ∧
    (v.saveRegs.pcb j).stack = (v.pcb j).stack ∧ (v.saveRegs.pcb j).status = (v.pcb j).status ∧
      (v.saveRegs.pcb j).waiting = (v.pcb j).waiting := by
  unfold saveRegs
  by_cases here : j = v.current
  · subst here
    rw [setPcb_self]
    exact ⟨rfl,rfl,rfl,rfl⟩
  · rw [setPcb_other _ _ here]
    exact ⟨rfl,rfl,rfl,rfl⟩

theorem Kept.of_roster (kept : v.Kept) {w : Procs} (same : w.roster = v.roster) : w.Kept := by
  unfold Kept
  rw [same]
  exact kept

theorem Kept.born (kept : v.Kept) {child : Fin pcbSize} (free : v.firstFree = some child) {stack : UInt32}
    (real : stack ≠ 0) (fresh : stack ∉ v.areas) : (v.born child stack).Kept := by
  have self := birth_self (((v.saveRegs.addBit child).copyTo child).grant stack) child stack
  refine kept.join (firstFree_dead free) fresh real rfl rfl ⟨self.1,self.2.1⟩ ?_
  intro j other
  rw [born_other v stack other]
  exact ⟨(saveRegs_pcb v j).1,(saveRegs_pcb v j).2.1⟩

theorem exit_pcb (v : Procs) (j : Fin pcbSize) : (v.exit.pcb j).pid = (v.pcb j).pid ∧
    (v.exit.pcb j).stack = (v.pcb j).stack ∧ (v.exit.pcb j).saved = (v.pcb j).saved := by
  have ends : v.exit.pcb j = (v.setPcb v.current fun p => {p with status := .terminated}).pcb j := rfl
  rw [ends]
  by_cases here : j = v.current
  · subst here
    rw [setPcb_self]
    exact ⟨rfl,rfl,rfl⟩
  · rw [setPcb_other _ _ here]
    exact ⟨rfl,rfl,rfl⟩

theorem freeStack_areas (v : Procs) {stack : UInt32} (real : stack ≠ 0) : (v.freeStack stack).areas = v.areas.erase stack :=
  if_neg real

theorem Kept.exit (kept : v.Kept) (here : v.Alive v.current) : v.exit.Kept := by
  refine kept.leave here rfl ?_ fun j => ⟨(exit_pcb v j).1,(exit_pcb v j).2.1⟩
  exact freeStack_areas _ (kept.real _ here)

theorem Kept.kill (kept : v.Kept) (i : Fin pcbSize) : (v.kill i).Kept := by
  unfold Procs.kill
  split
  · rename_i here
    exact kept.leave here rfl (freeStack_areas _ (kept.real _ here)) fun j => ⟨rfl,rfl⟩
  · exact kept

end Procs

section Runs
variable {m m' : Machine} {v : Procs} {e : Event}

theorem offers_fresh (offers : m.heap.offers = true) :
    m.heap.answer m.heap.asked ≠ 0 ∧ m.heap.answer m.heap.asked ∉ m.heap.areas := by
  obtain ⟨real,_,clear⟩ := of_decide_eq_true offers
  refine ⟨real,fun member => ?_⟩
  have self := List.all_eq_true.mp clear _ member
  unfold apart at self
  simp at self

-- A fork finds the table full or gets a stack for the child, and only a live
-- process exits.
def Orderly (m : Machine) : Event → Prop
  | .irq _ => True
  | .svc id => (id.toNat = 0x03 → m.procs.firstFree ≠ none → m.heap.offers = true) ∧
      (id.toNat = 0x04 → m.procs.Alive m.current)

theorem ProcsAfter.kept (kept : m.procs.Kept) (orderly : Orderly m e) (did : ProcsAfter m v e) : v.Kept := by
  cases did with
  | stays view =>
      rw [view]
      exact kept
  | ticks view =>
      rw [view]
      exact kept.of_roster (Procs.roster_next ..)
  | yields _ view =>
      rw [view]
      exact kept.of_roster (Procs.roster_next ..)
  | forks call did =>
      cases did with
      | full _ view =>
          rw [view]
          have same : (m.procs.saveRegs.setRegs 0 (UInt32.ofInt (-1))).roster = m.procs.roster :=
            Procs.roster_saveRegs m.procs
          exact kept.of_roster same
      | poor free fails _ =>
          rw [orderly.1 call (by rw [free]; exact Option.some_ne_none _)] at fails
          cases fails
      | born free offers given view =>
          rw [view]
          obtain ⟨real,fresh⟩ := offers_fresh offers
          rw [← given] at real fresh
          exact kept.born free real fresh
  | exits call _ _ view =>
      rw [view]
      exact (kept.exit (orderly.2 call)).of_roster (Procs.roster_next ..)
  | execs _ view =>
      rw [view]
      exact kept
  | kills _ did =>
      cases did with
      | none => exact kept
      | one i => exact kept.kill i
  | inits _ did =>
      cases did with
      | refused => exact kept
      | posted i => exact kept.of_roster (Procs.roster_doSemPost ..)
  | posts _ view =>
      rw [view]
      exact kept.of_roster (Procs.roster_doSemPost ..)
  | waits _ did =>
      cases did with
      | granted i => exact kept
      | blocked i => exact kept.of_roster ((Procs.roster_next ..).trans (Procs.roster_block ..))
  | execxs _ view =>
      rw [view]
      exact kept
  | other _ view => rcases view with rfl | ⟨r,rfl⟩ <;> exact kept

theorem exit_live (here : v.Alive v.current) (i : Fin pcbSize) :
    alive v.exit.alloc i = true ↔ alive v.alloc i = true ∧ i ≠ v.current := by
  show alive (v.alloc - bit v.current) i = true ↔ _
  rw [alive_sub here]
  simp

theorem kill_live (i j : Fin pcbSize) : alive (v.kill i).alloc j = true ↔ alive v.alloc j = true ∧ j ≠ i := by
  unfold Procs.kill
  split
  · rename_i here
    show alive (v.alloc - bit i) j = true ↔ _
    rw [alive_sub here]
    simp
  · rename_i gone
    constructor
    · intro live
      refine ⟨live,?_⟩
      rintro rfl
      exact gone live
    · exact And.left

theorem born_live (child : Fin pcbSize) (stack : UInt32) (i : Fin pcbSize) :
    alive (v.born child stack).alloc i = true ↔ alive v.alloc i = true ∨ i = child := by
  show alive (v.alloc ||| bit child) i = true ↔ _
  rw [alive_or]
  simp

theorem stack_of_roster {w : Procs} (same : w.roster = v.roster) (i : Fin pcbSize) : (w.pcb i).stack = (v.pcb i).stack :=
  congrFun (congrArg Procs.Roster.stack same) i

theorem alive_of_roster {w : Procs} (same : w.roster = v.roster) (i : Fin pcbSize) : alive w.alloc i = alive v.alloc i :=
  congrArg (fun r => alive (Procs.Roster.alloc r) i) same

-- A process that was there keeps the address of its stack, and one that was not
-- there comes with a new one.
theorem ProcsAfter.stacks (orderly : Orderly m e) (did : ProcsAfter m v e) (i : Fin pcbSize) :
    (alive m.procs.alloc i = true → (v.pcb i).stack = (m.procs.pcb i).stack) ∧
      (alive m.procs.alloc i = false → alive v.alloc i = true → (v.pcb i).stack ∉ m.procs.areas) := by
  have keeps : ∀ {w : Procs},w.roster = m.procs.roster →
      (alive m.procs.alloc i = true → (w.pcb i).stack = (m.procs.pcb i).stack) ∧
        (alive m.procs.alloc i = false → alive w.alloc i = true → (w.pcb i).stack ∉ m.procs.areas) := by
    intro w same
    refine ⟨fun _ => stack_of_roster same i,fun gone live => ?_⟩
    rw [alive_of_roster same,gone] at live
    cases live
  have exits : (m.procs.exit.next .terminated).roster = m.procs.exit.roster := Procs.roster_next ..
  cases did with
  | stays view =>
      rw [view]
      exact keeps rfl
  | ticks view =>
      rw [view]
      exact keeps (Procs.roster_next ..)
  | yields _ view =>
      rw [view]
      exact keeps (Procs.roster_next ..)
  | forks call did =>
      cases did with
      | full _ view =>
          rw [view]
          exact keeps (Procs.roster_saveRegs m.procs)
      | poor free fails _ =>
          rw [orderly.1 call (by rw [free]; exact Option.some_ne_none _)] at fails
          cases fails
      | @born child stack free offers given view =>
          rw [view]
          constructor
          · intro live
            have other : i ≠ child := by
              rintro rfl
              rw [Procs.firstFree_dead free] at live
              cases live
            exact (congrArg Proc.stack (Procs.born_other m.procs stack other)).trans (m.procs.saveRegs_pcb i).2.1
          · intro gone live
            rcases (born_live child stack i).mp live with live | rfl
            · rw [gone] at live
              cases live
            · have fresh := (offers_fresh offers).2
              rw [← given] at fresh
              exact fun member => fresh ((Procs.birth_self _ i stack).2.1 ▸ member)
  | exits call _ _ view =>
      rw [view]
      refine ⟨fun _ => (stack_of_roster exits i).trans (m.procs.exit_pcb i).2.1,fun gone live => ?_⟩
      rw [alive_of_roster exits,exit_live (orderly.2 call),gone] at live
      cases live.1
  | execs _ view =>
      rw [view]
      exact keeps rfl
  | kills _ did =>
      cases did with
      | none => exact keeps rfl
      | one j =>
          refine ⟨fun _ => ?_,fun gone live => ?_⟩
          · exact congrArg Proc.stack (m.procs.kill_pcb j i)
          · rw [kill_live,gone] at live
            cases live.1
  | inits _ did =>
      cases did with
      | refused => exact keeps rfl
      | posted j => exact keeps (Procs.roster_doSemPost ..)
  | posts _ view =>
      rw [view]
      exact keeps (Procs.roster_doSemPost ..)
  | waits _ did =>
      cases did with
      | granted j => exact keeps rfl
      | blocked j => exact keeps ((Procs.roster_next ..).trans (Procs.roster_block ..))
  | execxs _ view =>
      rw [view]
      exact keeps rfl
  | other _ view => rcases view with rfl | ⟨r,rfl⟩ <;> exact keeps rfl

theorem Kept.enter (kept : m.procs.Kept) (ctx : Ctx) (ram : UInt32 → UInt8) : (m.enter ctx ram).procs.Kept := kept

theorem Reached.kept (reached : Reached Orderly m) : m.procs.Kept := by
  induction reached with
  | boot z run => exact Procs.Booted.kept (boot_booted z run)
  | call _ orderly run ih => exact ProcsAfter.kept (Kept.enter ih ..) orderly (handle_did run)

def Machine.live (m : Machine) : Set (Fin pcbSize) := {i | alive m.pcballoc i = true}

-- What a call does to the set of the live processes.
def SvcAsked (m m' : Machine) : Nat → Prop
  | 0x03 => (∃ child : Fin pcbSize,child ∉ m.live ∧ m'.ctx.gpr 0 = UInt32.ofNat child ∧ m'.live = insert child m.live) ∨
      toInt (m'.ctx.gpr 0) < 0 ∧ m'.pcballoc = m.pcballoc
  | 0x04 => m.current ∈ m.live ∧ m'.live = m.live \ {m.current}
  | 0x06 => m'.live = m.live \ {i | toInt (m.ctx.gpr 0) = i.val}
  | _ => m'.pcballoc = m.pcballoc

def AsAsked (m m' : Machine) : Event → Prop
  | .irq _ => m'.pcballoc = m.pcballoc
  | .svc id => SvcAsked m m' id.toNat

-- The stacks of the live processes are what the allocator has given out, before and
-- after; a stack is given back when its process leaves, and only then.
structure StackStep (m m' : Machine) : Prop where
  before : m.procs.Kept
  after : m'.procs.Kept
  freed : ∀ i ∈ m.live,i ∉ m'.live → (m.pcb i).stack ∈ m.heap.areas ∧ (m.pcb i).stack ∉ m'.heap.areas
  held : ∀ i ∈ m.live,i ∈ m'.live → (m'.pcb i).stack = (m.pcb i).stack ∧ (m.pcb i).stack ∈ m'.heap.areas

theorem alloc_next (v : Procs) (st : Status) : (v.next st).alloc = v.alloc := congrArg Procs.Roster.alloc (v.roster_next st)

theorem alloc_post (v : Procs) (semId x : UInt32) : (v.doSemPost semId x).alloc = v.alloc :=
  congrArg Procs.Roster.alloc (v.roster_doSemPost semId x)

theorem toInt_neg : toInt (UInt32.ofInt (-1)) < 0 ∧ toInt (UInt32.ofInt (-2)) < 0 := by decide

theorem ProcsAfter.asked (orderly : Orderly m e) (did : ProcsAfter m m'.procs e) : AsAsked m m' e := by
  generalize after : m'.procs = v at did
  have alloc : m'.pcballoc = v.alloc := congrArg Procs.alloc after
  have answer : m'.ctx.gpr 0 = v.regs.gpr 0 := congrArg (fun v => v.regs.gpr 0) after
  cases did with
  | stays view => exact alloc.trans (congrArg Procs.alloc view)
  | ticks view => exact alloc.trans ((congrArg Procs.alloc view).trans (alloc_next ..))
  | @yields id call view =>
      show SvcAsked m m' id.toNat
      rw [call]
      exact alloc.trans ((congrArg Procs.alloc view).trans (alloc_next ..))
  | @forks id call did =>
      show SvcAsked m m' id.toNat
      rw [call]
      cases did with
      | full _ view =>
          refine .inr ⟨?_,alloc.trans (congrArg Procs.alloc view)⟩
          rw [answer,view]
          exact toInt_neg.1
      | poor free fails _ =>
          rw [orderly.1 call (by rw [free]; exact Option.some_ne_none _)] at fails
          cases fails
      | @born child stack free _ _ view =>
          refine .inl ⟨child,?_,?_,Set.ext fun i => ?_⟩
          · exact Bool.eq_false_iff.mp (Procs.firstFree_dead free)
          · rw [answer,view]
            rfl
          · show alive m'.pcballoc i = true ↔ i = child ∨ alive m.procs.alloc i = true
            rw [alloc,view]
            exact (born_live child stack i).trans or_comm
  | @exits id call _ _ view =>
      show SvcAsked m m' id.toNat
      rw [call]
      refine ⟨orderly.2 call,Set.ext fun i => ?_⟩
      show alive m'.pcballoc i = true ↔ alive m.procs.alloc i = true ∧ i ≠ m.procs.current
      rw [alloc,view,alloc_next]
      exact exit_live (orderly.2 call) i
  | @execs id call view =>
      show SvcAsked m m' id.toNat
      rw [call]
      exact alloc.trans (congrArg Procs.alloc view)
  | @kills id call did =>
      show SvcAsked m m' id.toNat
      rw [call]
      refine Set.ext fun j => ?_
      show alive m'.pcballoc j = true ↔ alive m.procs.alloc j = true ∧ ¬ toInt (m.ctx.gpr 0) = j.val
      rw [alloc]
      cases did with
      | none outside =>
          refine ⟨fun live => ⟨live,fun index => outside ?_⟩,And.left⟩
          have bound := j.isLt
          rw [index]
          exact ⟨Int.natCast_nonneg _,Int.ofNat_lt.mpr bound⟩
      | one i index =>
          rw [index]
          refine (kill_live i j).trans (and_congr_right fun _ => not_congr ?_)
          exact ⟨fun same => by rw [same],fun same => Fin.ext (Int.ofNat.inj same).symm⟩
  | @inits id call did =>
      show SvcAsked m m' id.toNat
      rw [call]
      cases did with
      | refused => exact alloc
      | posted i => exact alloc.trans (alloc_post ..)
  | @posts id call view =>
      show SvcAsked m m' id.toNat
      rw [call]
      exact alloc.trans ((congrArg Procs.alloc view).trans (alloc_post ..))
  | @waits id call did =>
      show SvcAsked m m' id.toNat
      rw [call]
      cases did with
      | granted i => exact alloc
      | blocked i => exact alloc.trans (alloc_next ..)
  | @execxs id call view =>
      show SvcAsked m m' id.toNat
      rw [call]
      exact alloc.trans (congrArg Procs.alloc view)
  | @other id call view =>
      have same : m'.pcballoc = m.pcballoc := by
        rcases view with rfl | ⟨r,rfl⟩ <;> exact alloc
      show SvcAsked m m' id.toNat
      unfold SvcAsked
      split <;> first | exact same | exact absurd (by simp [*]) call

theorem ProcsAfter.stackStep (orderly : Orderly m e) (kept : m.procs.Kept) (did : ProcsAfter m m'.procs e) : StackStep m m' := by
  have before : m.procs.Kept := kept
  have after : m'.procs.Kept := did.kept kept orderly
  refine ⟨before,after,fun i live gone => ?_,fun i live stays => ?_⟩
  · refine ⟨(kept.given _).mpr ⟨i,live,rfl⟩,fun member => ?_⟩
    obtain ⟨j,here,same⟩ := (after.given _).mp member
    cases was : alive m.procs.alloc j with
    | true =>
        have equal := ((did.stacks orderly j).1 was).symm.trans same
        exact gone (kept.apart j i was live equal ▸ here)
    | false =>
        refine (did.stacks orderly j).2 was here ?_
        rw [show (m'.procs.pcb j).stack = _ from same]
        exact (kept.given _).mpr ⟨i,live,rfl⟩
  · have same : (m'.pcb i).stack = (m.pcb i).stack := (did.stacks orderly i).1 live
    exact ⟨same,same ▸ (after.given _).mpr ⟨i,stays,rfl⟩⟩

theorem live_as_asked {ctx : Ctx} {ram : UInt32 → UInt8} (reached : Reached Orderly m)
    (orderly : Orderly (m.enter ctx ram) e) (run : (handle e).Ends (m.enter ctx ram) () m') :
    AsAsked (m.enter ctx ram) m' e ∧ StackStep (m.enter ctx ram) m' :=
  ⟨(handle_did run).asked orderly,(handle_did run).stackStep orderly reached.kept⟩

end Runs

-- The first process forks, with memory for the child and without.
def Machine.forking (answers : Nat) : Machine := (Machine.started (few answers)).asks 0 0

theorem live_as_asked_fork : AsAsked (Machine.forking 5) ((handle (.svc 3)).after (Machine.forking 5)) (.svc 3) ∧
    StackStep (Machine.forking 5) ((handle (.svc 3)).after (Machine.forking 5)) := by
  refine live_as_asked (started_reached (by decide) (by decide +kernel)) ?_ (ends_after (by decide +kernel))
  exact ⟨fun _ _ => by decide +kernel,fun exit => absurd exit (by decide)⟩

theorem live_not_as_asked : ¬ ∀ (m m' : Machine) (e : Event) (ctx : Ctx) (ram : UInt32 → UInt8),
    Reached Any m → (handle e).Ends (m.enter ctx ram) () m' → AsAsked (m.enter ctx ram) m' e := by
  intro all
  have start : Reached Any (Machine.started (few 4)) := started_reached (by decide) (by decide +kernel)
  have asked := all _ _ (.svc 3) _ _ start (ends_after (s := Machine.forking 4) (by decide +kernel))
  have failed : ∀ child : Fin pcbSize,((handle (.svc 3)).after (Machine.forking 4)).ctx.gpr 0 ≠ UInt32.ofNat child := by
    decide +kernel
  rcases asked with ⟨child,_,answer,_⟩ | ⟨_,same⟩
  · exact failed child answer
  · exact absurd same (by decide +kernel)

end ArchiveOs.Kernel
