import ArchiveOs.Rosters

-- FORK, with all that a child shares with its parent.
namespace ArchiveOs.Kernel
open Fs2
open Prog

section Shares
variable {m m' : Machine}

-- The object that an index of the file table leads to.
def Machine.leads (m : Machine) (i : Int) : Option UInt32 :=
  if bound : i.toNat < openSize then if 0 ≤ i then m.openft ⟨i.toNat,bound⟩ else none else none

def Machine.withFdtes (m : Machine) (fdtes : UInt32 → Option Fdte) : Machine := {m with heap := {m.heap with fdtes}}

-- Each object counts more references, as many as `more` says.
def Machine.share (m : Machine) (more : UInt32 → Int) : Machine :=
  m.withFdtes fun p => (m.heap.fdtes p).map fun e => {e with openCount := e.openCount + more p}

-- The slots among these that lead to an object.
def Machine.references (m : Machine) (fds : List (Fin fdtSize)) (p : UInt32) : Int :=
  (fds.countP fun fd => decide ((m.pcb m.current).fdt fd ≠ -1 ∧ m.leads ((m.pcb m.current).fdt fd) = some p) : Nat)

-- Each of these slots that is used leads to an object.
def Machine.Held (m : Machine) (fds : List (Fin fdtSize)) : Prop :=
  ∀ fd ∈ fds,(m.pcb m.current).fdt fd ≠ -1 → ∃ p e,m.leads ((m.pcb m.current).fdt fd) = some p ∧ m.heap.fdtes p = some e

theorem openftAt_ends {i : Int} {r : Option UInt32} :
    (openftAt i).Ends m r m' ↔ (∃ k : Fin openSize,i = k.val ∧ m.openft k = r) ∧ m = m' := by
  unfold openftAt
  simp only [ends_bind,slot_ends,ends_read]
  constructor
  · rintro ⟨k,_,⟨index,rfl⟩,found,rfl⟩
    exact ⟨⟨k,index,found⟩,rfl⟩
  · rintro ⟨⟨k,index,found⟩,rfl⟩
    exact ⟨k,m,⟨index,rfl⟩,found,rfl⟩

theorem leads_some {i : Int} {p : UInt32} : m.leads i = some p ↔ ∃ k : Fin openSize,i = k.val ∧ m.openft k = some p := by
  unfold Machine.leads
  constructor
  · intro leads
    split at leads
    · rename_i bound
      split at leads
      · rename_i pos
        exact ⟨⟨i.toNat,bound⟩,(Int.toNat_of_nonneg pos).symm,leads⟩
      · cases leads
    · cases leads
  · rintro ⟨k,rfl,found⟩
    rw [dif_pos (show ((k.val : Int)).toNat < openSize from k.isLt),if_pos (Int.natCast_nonneg _)]
    exact found

theorem share_none (m : Machine) : m.share (fun _ => 0) = m := by
  refine congrArg m.withFdtes (funext fun p => ?_)
  cases m.heap.fdtes p <;> simp

theorem share_share (m : Machine) (f g : UInt32 → Int) : (m.share f).share g = m.share fun p => f p + g p := by
  refine congrArg m.withFdtes (funext fun p => ?_)
  show Option.map _ (Option.map _ (m.heap.fdtes p)) = _
  cases m.heap.fdtes p with
  | none => rfl
  | some e => simp [Int.add_assoc]

theorem share_held (m : Machine) (f : UInt32 → Int) (fds : List (Fin fdtSize)) :
    (m.share f).Held fds ↔ m.Held fds := by
  have object : ∀ p,(∃ e,(m.share f).heap.fdtes p = some e) ↔ ∃ e,m.heap.fdtes p = some e := by
    intro p
    show (∃ e,Option.map _ (m.heap.fdtes p) = some e) ↔ _
    cases here : m.heap.fdtes p <;> simp
  unfold Machine.Held
  refine forall_congr' fun fd => imp_congr_right fun _ => imp_congr_right fun _ => exists_congr fun p => ?_
  rw [exists_and_left,exists_and_left,object]
  rfl

theorem shareOne_ends {p : UInt32} {e : Fdte} (object : m.heap.fdtes p = some e) :
    (setFdte p (some {e with openCount := e.openCount + 1})).Ends m () m' ↔
      m.share (fun q => if q = p then 1 else 0) = m' := by
  have same : (m.withFdtes fun q => if q = p then some {e with openCount := e.openCount + 1} else m.heap.fdtes q) =
      m.share (fun q => if q = p then 1 else 0) := by
    refine congrArg m.withFdtes (funext fun q => ?_)
    by_cases here : q = p
    · rw [if_pos here,here,object,Option.map_some]
      simp
    · rw [if_neg here]
      cases m.heap.fdtes q <;> simp [here]
  rw [← same]
  exact ends_update

theorem references_cons {fd : Fin fdtSize} {rest : List (Fin fdtSize)} {p : UInt32}
    (used : (m.pcb m.current).fdt fd ≠ -1) (leads : m.leads ((m.pcb m.current).fdt fd) = some p) :
    m.references (fd :: rest) = fun q => (if q = p then 1 else 0) + m.references rest q := by
  funext q
  unfold Machine.references
  rw [List.countP_cons]
  by_cases here : q = p
  · rw [here,if_pos rfl,if_pos (decide_eq_true ⟨used,leads⟩)]
    push_cast
    omega
  · have other : ¬ ((m.pcb m.current).fdt fd ≠ -1 ∧ m.leads ((m.pcb m.current).fdt fd) = some q) := by
      rintro ⟨_,leads'⟩
      exact here (Option.some.inj (leads'.symm.trans leads))
    rw [if_neg here,if_neg (by rw [decide_eq_true_iff]; exact other)]
    omega

theorem references_skip {fd : Fin fdtSize} {rest : List (Fin fdtSize)} (free : (m.pcb m.current).fdt fd = -1) :
    m.references (fd :: rest) = m.references rest := by
  funext q
  unfold Machine.references
  rw [List.countP_cons,if_neg (by rw [decide_eq_true_iff]; exact fun here => here.1 free)]
  rfl

theorem shareAll_ends {fds : List (Fin fdtSize)} :
    (shareAll fds).Ends m () m' ↔ m.Held fds ∧ m.share (m.references fds) = m' := by
  induction fds generalizing m with
  | nil =>
      unfold shareAll
      have nothing : m.references [] = fun _ => 0 := rfl
      rw [ends_pure,nothing,share_none]
      exact ⟨fun ⟨_,same⟩ => ⟨fun _ wrong => (by cases wrong),same⟩,fun ⟨_,same⟩ => ⟨rfl,same⟩⟩
  | cons fd rest ih =>
      unfold shareAll
      simp only [ends_bind,running_ends,ends_ite]
      constructor
      · rintro ⟨_,_,⟨rfl,rfl⟩,⟨used,o,_,found,⟨p,e⟩,_,object,_,t,counted,others⟩ | ⟨free,others⟩⟩
        · obtain ⟨opened,rfl⟩ := openftAt_ends.mp found
          obtain ⟨rfl,here,rfl⟩ := deref_ends.mp object
          have leads := leads_some.mpr opened
          cases (shareOne_ends here).mp counted
          obtain ⟨held,rfl⟩ := ih.mp others
          rw [share_held] at held
          refine ⟨fun i member used' => ?_,?_⟩
          · rcases List.mem_cons.mp member with rfl | later
            · exact ⟨p,e,leads,here⟩
            · exact held i later used'
          · rw [share_share,references_cons used leads]
            rfl
        · obtain ⟨held,rfl⟩ := ih.mp others
          have free' := not_not.mp free
          refine ⟨fun i member used' => ?_,by rw [references_skip free']⟩
          rcases List.mem_cons.mp member with rfl | later
          · exact absurd free' used'
          · exact held i later used'
      · rintro ⟨held,rfl⟩
        have held' : m.Held rest := fun i later => held i (List.mem_cons_of_mem _ later)
        by_cases free : (m.pcb m.current).fdt fd = -1
        · refine ⟨_,_,⟨rfl,rfl⟩,.inr ⟨not_not.mpr free,ih.mpr ⟨held',?_⟩⟩⟩
          rw [references_skip free]
        · obtain ⟨p,e,leads,here⟩ := held fd List.mem_cons_self free
          refine ⟨_,_,⟨rfl,rfl⟩,.inl ⟨free,some p,m,openftAt_ends.mpr ⟨leads_some.mp leads,rfl⟩,(p,e),m,
            deref_ends.mpr ⟨rfl,here,rfl⟩,(),_,(shareOne_ends here).mpr rfl,ih.mpr ⟨?_,?_⟩⟩⟩
          · exact (share_held ..).mpr held'
          · rw [share_share,references_cons free leads]
            rfl

end Shares

section Forks
variable {m m' : Machine}

-- The steps of do_fork.
def Machine.saved (m : Machine) : Machine := m.setPcb m.current fun p => {p with ctx := m.ctx}

def Machine.enrolled (m : Machine) (child : Fin pcbSize) : Machine := {m with pcballoc := m.pcballoc ||| bit child}

def Machine.doubled (m : Machine) (child : Fin pcbSize) : Machine := m.setPcb child fun _ => m.pcb m.current

def Machine.answers (m : Machine) (w : UInt32) : Machine := {m with ctx := {m.ctx with gpr := put m.ctx.gpr 0 w}}

def Machine.asksHeap (m : Machine) : Machine := {m with heap := {m.heap with asked := m.heap.asked + 1}}

def Machine.gets (m : Machine) (stack : UInt32) : Machine := {m with heap := {m.heap with areas := stack :: m.heap.areas}}

def Machine.copies (m : Machine) (child parent : UInt32) : Machine :=
  {m with ram := fun a => if (a - child).toNat < stackBytes then m.ram (parent + (a - child)) else m.ram a}

-- The entry of a child with its own pid, stack and answer.
def Machine.named (m : Machine) (child : Fin pcbSize) (stack : UInt32) : Machine :=
  let m := m.setPcb child fun p => {p with pid := child,status := .created}
  let sCur := (m.pcb m.current).stack
  m.setPcb child fun p => {p with
    ctx := {p.ctx with sp := p.ctx.sp + (stack - sCur),gpr := put p.ctx.gpr 0 0},stack := stack}

theorem newPcbEntry_ends {r : Option (Fin pcbSize)} : newPcbEntry.Ends m r m' ↔ m.procs.firstFree = r ∧
    (match r with | none => m | some child => m.enrolled child) = m' := by
  unfold newPcbEntry
  simp only [ends_bind,freeEntry_ends]
  constructor
  · rintro ⟨found,_,⟨first,rfl⟩,run⟩
    cases found with
    | none =>
        obtain ⟨rfl,rfl⟩ := ends_pure.mp run
        exact ⟨first,rfl⟩
    | some i =>
        simp only [ends_bind,ends_update,ends_pure] at run
        obtain ⟨_,_,rfl,rfl,rfl⟩ := run
        exact ⟨first,rfl⟩
  · rintro ⟨first,rfl⟩
    refine ⟨r,m,⟨first,rfl⟩,?_⟩
    cases r with
    | none => exact ends_pure.mpr ⟨rfl,rfl⟩
    | some i => exact ends_bind.mpr ⟨(),m.enrolled i,rfl,rfl⟩

theorem mallocStack_ends {p : UInt32} : mallocStack.Ends m p m' ↔
    m.heap.offers = true ∧ m.heap.answer m.heap.asked = p ∧ m.asksHeap.gets p = m' ∨
      m.heap.offers = false ∧ 0 = p ∧ m.asksHeap = m' := by
  unfold mallocStack ask setHeap
  simp only [ends_bind,ends_read,ends_update,ends_pure,ends_ite]
  constructor
  · rintro ⟨_,_,⟨_,_,⟨rfl,rfl⟩,_,_,rfl,rfl,rfl⟩,_,_,⟨rfl,rfl⟩,⟨fits,_,_,rfl,rfl,rfl⟩ | ⟨fails,rfl,rfl⟩⟩
    · exact .inl ⟨decide_eq_true fits,rfl,rfl⟩
    · exact .inr ⟨decide_eq_false fails,rfl,rfl⟩
  · rintro (⟨fits,rfl,rfl⟩ | ⟨fails,rfl,rfl⟩)
    · exact ⟨_,_,⟨_,_,⟨rfl,rfl⟩,(),_,rfl,rfl,rfl⟩,_,_,⟨rfl,rfl⟩,.inl ⟨of_decide_eq_true fits,(),_,rfl,rfl,rfl⟩⟩
    · exact ⟨_,_,⟨_,_,⟨rfl,rfl⟩,(),_,rfl,rfl,rfl⟩,_,_,⟨rfl,rfl⟩,.inr ⟨of_decide_eq_false fails,rfl,rfl⟩⟩

-- The machine with a child that has got its stack, before the references are counted.
def Machine.child (m : Machine) (child : Fin pcbSize) (stack : UInt32) : Machine :=
  (((m.copies stack (m.pcb m.current).stack).named child stack).answers (UInt32.ofNat child))

theorem bear_ends {child : Fin pcbSize} {stack : UInt32} : (bear child stack).Ends m () m' ↔
    (shareAll (List.finRange fdtSize)).Ends (m.child child stack) () m' := by
  unfold bear copyStack setPcb setGpr setCtx
  simp only [ends_bind,running_ends,ends_update]
  constructor
  · rintro ⟨_,_,⟨rfl,rfl⟩,_,_,rfl,_,_,rfl,_,_,⟨rfl,rfl⟩,_,_,rfl,_,_,rfl,shared⟩
    exact shared
  · intro shared
    exact ⟨_,_,⟨rfl,rfl⟩,(),_,rfl,(),_,rfl,_,_,⟨rfl,rfl⟩,(),_,rfl,(),_,rfl,shared⟩

-- The machine with the new child.
def Machine.forked (m : Machine) (child : Fin pcbSize) (stack : UInt32) : Machine :=
  (((m.saved.enrolled child).doubled child).asksHeap.gets stack).child child stack

-- Where do_fork ends, and that it ends only with objects behind the descriptors.
inductive Forks (m m' : Machine) : Prop where
  | full : m.procs.firstFree = none → m' = m.saved.answers (UInt32.ofInt (-1)) → Forks m m'
  | poor (child : Fin pcbSize) : m.procs.firstFree = some child → m.heap.offers = false →
      m' = ((m.saved.enrolled child).doubled child).asksHeap.answers (UInt32.ofInt (-2)) → Forks m m'
  | born (child : Fin pcbSize) (stack : UInt32) : m.procs.firstFree = some child → m.heap.offers = true →
      stack = m.heap.answer m.heap.asked → m.Held (List.finRange fdtSize) →
      m' = (m.forked child stack).share (m.references (List.finRange fdtSize)) → Forks m m'

theorem setPcb_fdt (m : Machine) (i j : Fin pcbSize) {f : Pcb → Pcb} (same : ∀ p,(f p).fdt = p.fdt) :
    ((m.setPcb i f).pcb j).fdt = (m.pcb j).fdt := by
  by_cases here : j = i
  · rw [here]
    exact (congrArg Pcb.fdt (put_self ..)).trans (same _)
  · exact congrArg Pcb.fdt (put_other _ _ here)

theorem doubled_fdt (m : Machine) (child : Fin pcbSize) : ((m.doubled child).pcb m.current).fdt = (m.pcb m.current).fdt := by
  by_cases here : m.current = child
  · rw [← here]
    exact congrArg Pcb.fdt (put_self ..)
  · exact congrArg Pcb.fdt (put_other _ _ here)

theorem Machine.forked_fdt (m : Machine) (child : Fin pcbSize) (stack : UInt32) :
    ((m.forked child stack).pcb m.current).fdt = (m.pcb m.current).fdt := by
  have named := fun t : Machine => (setPcb_fdt (t.setPcb child fun p => {p with pid := child,status := .created}) child m.current
    (f := fun p => {p with
      ctx := {p.ctx with
        sp := p.ctx.sp + (stack - ((t.setPcb child fun p => {p with pid := child,status := .created}).pcb t.current).stack)
        gpr := put p.ctx.gpr 0 0}
      stack := stack}) fun _ => rfl).trans (setPcb_fdt t child m.current fun _ => rfl)
  refine (named _).trans ((doubled_fdt (m.saved.enrolled child) child).trans ?_)
  exact setPcb_fdt m m.current m.current (f := fun p => {p with ctx := m.ctx}) fun _ => rfl

theorem Machine.forked_held (m : Machine) (child : Fin pcbSize) (stack : UInt32) (fds : List (Fin fdtSize)) :
    (m.forked child stack).Held fds ↔ m.Held fds := by
  have fdt := m.forked_fdt child stack
  unfold Machine.Held
  rw [show (m.forked child stack).current = m.current from rfl,fdt]
  rfl

theorem Machine.forked_references (m : Machine) (child : Fin pcbSize) (stack : UInt32) (fds : List (Fin fdtSize)) :
    (m.forked child stack).references fds = m.references fds := by
  have fdt := m.forked_fdt child stack
  unfold Machine.references
  rw [show (m.forked child stack).current = m.current from rfl,fdt]
  rfl

theorem offers_real (offers : m.heap.offers = true) : m.heap.answer m.heap.asked ≠ 0 := (of_decide_eq_true offers).1

theorem doFork_ends : doFork.Ends m () m' ↔ Forks m m' := by
  unfold doFork setRunning setPcb setGpr setCtx
  simp only [ends_bind,ends_read,ends_update,newPcbEntry_ends]
  constructor
  · rintro ⟨_,_,⟨rfl,rfl⟩,_,_,⟨_,_,⟨rfl,rfl⟩,rfl⟩,r,_,⟨first,rfl⟩,run⟩
    cases r with
    | none => exact .full first (ends_update.mp run).symm
    | some child =>
        simp only [ends_bind,running_ends,ends_update,mallocStack_ends,ends_ite,bear_ends,shareAll_ends] at run
        obtain ⟨_,_,⟨rfl,rfl⟩,_,_,rfl,stack,_,⟨offers,rfl,rfl⟩ | ⟨fails,rfl,rfl⟩,⟨zero,answered⟩ | ⟨some,held,shared⟩⟩ := run
        · exact absurd zero (offers_real offers)
        · refine .born child _ first offers rfl ((m.forked_held child _ _).mp held) ?_
          rw [← m.forked_references child]
          exact shared.symm
        · exact .poor child first fails answered.symm
        · exact absurd rfl some
  · intro forks
    cases forks with
    | full first same => exact ⟨_,_,⟨rfl,rfl⟩,(),_,⟨_,_,⟨rfl,rfl⟩,rfl⟩,none,_,⟨first,rfl⟩,ends_update.mpr same.symm⟩
    | poor child first fails same =>
        refine ⟨_,_,⟨rfl,rfl⟩,(),_,⟨_,_,⟨rfl,rfl⟩,rfl⟩,some child,_,⟨first,rfl⟩,?_⟩
        simp only [ends_bind,running_ends,ends_update,mallocStack_ends,ends_ite]
        exact ⟨_,_,⟨rfl,rfl⟩,(),_,rfl,_,_,.inr ⟨fails,rfl,rfl⟩,.inl ⟨rfl,same.symm⟩⟩
    | born child stack first offers is_stack held same =>
        refine ⟨_,_,⟨rfl,rfl⟩,(),_,⟨_,_,⟨rfl,rfl⟩,rfl⟩,some child,_,⟨first,rfl⟩,?_⟩
        simp only [ends_bind,running_ends,ends_update,mallocStack_ends,ends_ite,bear_ends,shareAll_ends]
        refine ⟨_,_,⟨rfl,rfl⟩,(),_,rfl,stack,_,.inl ⟨offers,is_stack.symm,rfl⟩,.inr ⟨?_,(m.forked_held child stack _).mpr held,?_⟩⟩
        · rw [is_stack]
          exact offers_real offers
        · rw [same,← m.forked_references child stack]
          rfl

-- The allocation bitmap, the entries of the live processes but for the caller's saved
-- registers, and what is behind the descriptors are as they were.
structure AsBefore (m m' : Machine) : Prop where
  alloc : m'.pcballoc = m.pcballoc
  others : ∀ i ∈ m.live,i ≠ m.current → m'.pcb i = m.pcb i
  caller : ∃ c : Ctx,m'.pcb m.current = {m.pcb m.current with ctx := c}
  openft : m'.openft = m.openft
  objects : m'.heap.fdtes = m.heap.fdtes

-- One new process, which is as its parent is.
structure Bears (m m' : Machine) (child : Fin pcbSize) : Prop where
  new : child ∉ m.live
  live : m'.live = insert child m.live
  status : (m'.pcb child).status = .created
  pid : (m'.pcb child).pid = child
  saved : (m'.pcb child).ctx = {m.ctx with gpr := put m.ctx.gpr 0 0,sp := (m'.pcb child).ctx.sp}
  sp : (m'.pcb child).ctx.sp - (m'.pcb child).stack = m.ctx.sp - (m.pcb m.current).stack
  area : ∀ k : UInt32,k.toNat < stackBytes → m'.ram ((m'.pcb child).stack + k) = m.ram ((m.pcb m.current).stack + k)
  wd : (m'.pcb child).wd = (m.pcb m.current).wd
  basePriority : (m'.pcb child).basePriority = (m.pcb m.current).basePriority
  fdt : (m'.pcb child).fdt = (m.pcb m.current).fdt
  others : ∀ i ∈ m.live,i ≠ m.current → m'.pcb i = m.pcb i
  caller : ∃ c : Ctx,m'.pcb m.current = {m.pcb m.current with ctx := c}
  openft : m'.openft = m.openft
  counts : ∀ p,m'.heap.fdtes p = (m.heap.fdtes p).map fun e =>
    {e with openCount := e.openCount + m.references (List.finRange fdtSize) p}
  answer : m'.ctx.gpr 0 = UInt32.ofNat child

-- A fork that fails has done nothing, and one that does not has done everything.
def AllOrNothing (m m' : Machine) : Prop := toInt (m'.ctx.gpr 0) < 0 ∧ AsBefore m m' ∨ ∃ child,Bears m m' child

theorem saved_other (m : Machine) {i : Fin pcbSize} (other : i ≠ m.current) : m.saved.pcb i = m.pcb i :=
  put_other _ _ other

theorem saved_self (m : Machine) : m.saved.pcb m.current = {m.pcb m.current with ctx := m.ctx} := put_self ..

theorem full_asBefore (m : Machine) (w : UInt32) : AsBefore m (m.saved.answers w) :=
  ⟨rfl,fun _ _ other => saved_other m other,⟨m.ctx,saved_self m⟩,rfl,rfl⟩

theorem forked_other (m : Machine) {child i : Fin pcbSize} (stack : UInt32) (other : i ≠ child) :
    (m.forked child stack).pcb i = m.saved.pcb i :=
  (put_other _ _ other).trans ((put_other _ _ other).trans (put_other _ _ other))

theorem named_child (t : Machine) {child : Fin pcbSize} (stack : UInt32) (other : t.current ≠ child) :
    (t.named child stack).pcb child = {t.pcb child with
      pid := child,status := .created,stack
      ctx := {(t.pcb child).ctx with
        sp := (t.pcb child).ctx.sp + (stack - (t.pcb t.current).stack)
        gpr := put (t.pcb child).ctx.gpr 0 0}} := by
  have first : (t.setPcb child fun p => {p with pid := child,status := .created}).pcb child =
      {t.pcb child with pid := child,status := .created} := put_self ..
  have parent : (t.setPcb child fun p => {p with pid := child,status := .created}).pcb t.current = t.pcb t.current :=
    put_other _ _ other
  unfold Machine.named
  dsimp only
  refine (put_self ..).trans ?_
  rw [first]
  show Pcb.mk _ _ _ _ _ _ _ _ = _
  rw [show (t.setPcb child fun p => {p with pid := child,status := .created}).current = t.current from rfl,parent]

theorem doubled_parent (m : Machine) {child : Fin pcbSize} (other : m.current ≠ child) :
    ((m.saved.enrolled child).doubled child).pcb m.current = {m.pcb m.current with ctx := m.ctx} :=
  (put_other _ _ other).trans (saved_self m)

theorem forked_child (m : Machine) {child : Fin pcbSize} (stack : UInt32) (other : m.current ≠ child) :
    (m.forked child stack).pcb child = {m.pcb m.current with
      pid := child,status := .created,stack
      ctx := {m.ctx with sp := m.ctx.sp + (stack - (m.pcb m.current).stack),gpr := put m.ctx.gpr 0 0}} := by
  have step := named_child ((m.saved.enrolled child).doubled child) stack other
  have double : ((m.saved.enrolled child).doubled child).pcb child = {m.pcb m.current with ctx := m.ctx} :=
    (put_self ..).trans (saved_self m)
  rw [show ((m.saved.enrolled child).doubled child).current = m.current from rfl,double,doubled_parent m other] at step
  exact step

theorem forked_bears (m : Machine) {child : Fin pcbSize} {stack : UInt32} (here : m.current ∈ m.live) (new : child ∉ m.live) :
    Bears m ((m.forked child stack).share (m.references (List.finRange fdtSize))) child := by
  have other : m.current ≠ child := fun same => new (same ▸ here)
  have entry : ((m.forked child stack).share (m.references (List.finRange fdtSize))).pcb child = _ :=
    forked_child m stack other
  have kept : ∀ i ∈ m.live,i ≠ child := fun i live same => new (same ▸ live)
  have caller : (m.forked child stack).pcb m.current = {m.pcb m.current with ctx := m.ctx} :=
    (forked_other m stack other).trans (saved_self m)
  refine ⟨new,Set.ext fun i => ?_,?_,?_,?_,?_,fun k inside => ?_,?_,?_,?_,fun i live away => ?_,⟨m.ctx,caller⟩,rfl,
    fun p => rfl,rfl⟩
  · show alive (m.pcballoc ||| bit child) i = true ↔ i = child ∨ alive m.pcballoc i = true
    rw [alive_or]
    simp [or_comm]
  · rw [entry]
  · rw [entry]
  · rw [entry]
  · rw [entry]
    show m.ctx.sp + (stack - (m.pcb m.current).stack) - stack = _
    grind
  · rw [entry]
    have parent : (((m.saved.enrolled child).doubled child).pcb m.current).stack = (m.pcb m.current).stack := by
      rw [doubled_parent m other]
    have offset : stack + k - stack = k := by grind
    show (if (stack + k - stack).toNat < stackBytes then
      m.ram ((((m.saved.enrolled child).doubled child).pcb m.current).stack + (stack + k - stack)) else _) = _
    rw [offset,if_pos inside,parent]
  · rw [entry]
  · rw [entry]
  · rw [entry]
  · exact (forked_other m stack (kept i live)).trans (saved_other m away)

theorem poor_neither {child : Fin pcbSize} (first : m.procs.firstFree = some child) :
    ¬ AllOrNothing m (((m.saved.enrolled child).doubled child).asksHeap.answers (UInt32.ofInt (-2))) := by
  have dead : child ∉ m.live := Bool.eq_false_iff.mp (Procs.firstFree_dead first)
  rintro (⟨_,before⟩ | ⟨j,bears⟩)
  · have enrolled : alive (m.pcballoc ||| bit child) child = true := by
      rw [alive_or]
      simp
    rw [show m.pcballoc ||| bit child = m.pcballoc from before.alloc] at enrolled
    exact dead enrolled
  · have wrong : ∀ l : Fin pcbSize,UInt32.ofInt (-2) ≠ UInt32.ofNat l := by decide
    exact wrong j bears.answer

-- FORK is all or nothing exactly when the table is full, or there is memory for a
-- stack and no descriptor of the caller leads to freed memory.
theorem fork_all_or_nothing_iff (here : m.current ∈ m.live) :
    (∃ m',(handle (.svc 0x03)).Ends m () m' ∧ AllOrNothing m m') ↔
      (∀ i,i ∈ m.live) ∨ m.heap.offers = true ∧ m.Held (List.finRange fdtSize) := by
  have negative : toInt (UInt32.ofInt (-1)) < 0 := toInt_neg.1
  constructor
  · rintro ⟨m',run,outcome⟩
    cases doFork_ends.mp run with
    | full first => exact .inl fun i => Procs.firstFree_none first i
    | born child stack _ offers _ held => exact .inr ⟨offers,held⟩
    | poor child first _ same =>
        rw [same] at outcome
        exact absurd outcome (poor_neither first)
  · rintro (full | ⟨offers,held⟩)
    · have first : m.procs.firstFree = none :=
        List.find?_eq_none.mpr fun i _ => by rw [show alive m.procs.alloc i = true from full i]; decide
      exact ⟨_,doFork_ends.mpr (.full first rfl),.inl ⟨negative,full_asBefore m _⟩⟩
    · cases first : m.procs.firstFree with
      | none => exact ⟨_,doFork_ends.mpr (.full first rfl),.inl ⟨negative,full_asBefore m _⟩⟩
      | some child =>
          have dead : child ∉ m.live := Bool.eq_false_iff.mp (Procs.firstFree_dead first)
          exact ⟨_,doFork_ends.mpr (.born child _ first offers rfl held rfl),.inr ⟨child,forked_bears m here dead⟩⟩

end Forks

theorem fork_all_or_nothing_five :
    (∃ m',(handle (.svc 0x03)).Ends (Machine.forking 5) () m' ∧ AllOrNothing (Machine.forking 5) m') ↔
      (∀ i,i ∈ (Machine.forking 5).live) ∨
        (Machine.forking 5).heap.offers = true ∧ (Machine.forking 5).Held (List.finRange fdtSize) :=
  fork_all_or_nothing_iff (by unfold Machine.live; decide +kernel)

-- There is a free entry, but no memory for the stack.
theorem fork_leaves_entry : ¬ ∀ (m : Machine) (ctx : Ctx) (ram : UInt32 → UInt8),Reached Any m → m.current ∈ m.live →
    ∃ m',(handle (.svc 0x03)).Ends (m.enter ctx ram) () m' ∧ AllOrNothing (m.enter ctx ram) m' := by
  intro all
  have start : Reached Any (Machine.started (few 4)) := started_reached (by decide) (by decide +kernel)
  have here : (Machine.forking 4).current ∈ (Machine.forking 4).live := by unfold Machine.live; decide +kernel
  obtain ⟨m',run,outcome⟩ := all _ (Machine.forking 4).ctx (Machine.forking 4).ram start here
  have free : (Machine.forking 4).procs.firstFree ≠ none := by decide +kernel
  have empty : (Machine.forking 4).heap.offers ≠ true := by decide +kernel
  cases doFork_ends.mp run with
  | full first => exact free first
  | born child stack _ offers => exact empty offers
  | poor child first _ same =>
      rw [same] at outcome
      exact poor_neither first outcome

end ArchiveOs.Kernel
