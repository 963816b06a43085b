import ArchiveOs.VolumeOps
import ArchiveOs.Pipes
import ArchiveOs.Programs

-- The tables of the kernel (hilevel.h, file.h and the top of hilevel.c) and the
-- ways its functions touch them.
namespace ArchiveOs.Kernel
open Fs2

abbrev pcbSize : Nat := 0x20
abbrev fdtSize : Nat := 32
abbrev openSize : Nat := 64
abbrev stackBytes : Nat := 0x1000

-- There is a first process, and a first register.
instance pcbSize_ne : NeZero pcbSize := ⟨by decide⟩
instance gprs_ne : NeZero 13 := ⟨by decide⟩

-- One place of a table is written.
def put {n : Nat} {α : Type} (table : Fin n → α) (i : Fin n) (x : α) : Fin n → α :=
  fun j => if j = i then x else table j

@[simp] theorem put_self {n : Nat} {α : Type} (table : Fin n → α) (i : Fin n) (x : α) : put table i x i = x :=
  if_pos rfl

theorem put_other {n : Nat} {α : Type} (table : Fin n → α) {i j : Fin n} (x : α) (other : j ≠ i) :
    put table i x j = table j := if_neg other

@[simp] theorem put_same {n : Nat} {α : Type} (table : Fin n → α) (i : Fin n) : put table i (table i) = table := by
  funext j
  by_cases here : j = i
  · rw [here,put_self]
  · exact put_other _ _ here

-- The first place from `start` on that passes the test, as the loops that look
-- for a free one count up to it.
def firstFrom {n : Nat} (test : Fin n → Bool) (start : Nat) : Option (Fin n) :=
  (List.finRange n).find? fun i => decide (start ≤ i.val) && test i

theorem firstFrom_none {n : Nat} {test : Fin n → Bool} {start : Nat} :
    firstFrom test start = none ↔ ∀ i : Fin n,start ≤ i.val → test i = false := by
  unfold firstFrom
  rw [List.find?_eq_none]
  constructor
  · intro none i late
    have fails := none i (List.mem_finRange i)
    simpa [late] using fails
  · intro all i _
    by_cases late : start ≤ i.val
    · simp [all i late]
    · simp [late]

theorem firstFrom_some {n : Nat} {test : Fin n → Bool} {start : Nat} {i : Fin n} (found : firstFrom test start = some i) :
    start ≤ i.val ∧ test i = true ∧ ∀ j : Fin n,start ≤ j.val → test j = true → i ≤ j := by
  unfold firstFrom at found
  obtain ⟨passes,before,behind,split,fails⟩ := List.find?_eq_some_iff_append.mp found
  rw [Bool.and_eq_true,decide_eq_true_iff] at passes
  refine ⟨passes.1,passes.2,fun j late passed => ?_⟩
  have sorted := List.pairwise_lt_finRange n
  rw [split,List.pairwise_append] at sorted
  have member := List.mem_finRange j
  rw [split,List.mem_append,List.mem_cons] at member
  rcases member with early | rfl | next
  · have wrong := fails j early
    simp [late,passed] at wrong
  · exact le_refl _
  · exact le_of_lt (List.rel_of_pairwise_cons sorted.2.1 next)

-- ctx_t.
structure Ctx where
  cpsr : UInt32
  pc : UInt32
  gpr : Fin 13 → UInt32
  sp : UInt32
  lr : UInt32
  deriving DecidableEq

inductive Status where
  | created | ready | executing | waiting | terminated
  deriving DecidableEq, Repr

-- semwait_t. It is written once, before anything can point to it, and read through
-- the waiting process only, so that the value stands for the pointer.
structure Semwait where
  semId : UInt32
  x : UInt32
  deriving DecidableEq

-- pcb_t. A pid is stored as the index of an entry of the table only.
structure Pcb where
  pid : Fin pcbSize
  status : Status
  basePriority : Int
  waiting : Semwait
  stack : UInt32
  fdt : Fin fdtSize → Int
  wd : Path
  ctx : Ctx

inductive Ftype where
  | uart | kern | pipe | file
  deriving DecidableEq, Repr

inductive Fmode where
  | null | r | w | rw
  deriving DecidableEq, Repr

-- fdte_t. For a file `id` is the address of a copy of its path, which is `path`.
structure Fdte where
  openCount : Int
  type : Ftype
  mode : Fmode
  id : UInt32
  path : Path
  cursor : UInt32

-- The allocator: the answers it will give are decided outside the kernel, and so
-- is what a new object holds. 0 is NULL.
structure Heap where
  answer : Nat → UInt32
  asked : Nat
  junk : Nat → Fdte
  junkPipe : Nat → Pipe
  fdtes : UInt32 → Option Fdte
  areas : List UInt32

-- The globals of the kernel, the memory of the user programs (`ram`), and the
-- context that a handler works on (`ctx`).
structure Machine where
  pcb : Fin pcbSize → Pcb
  pcballoc : UInt32
  current : Fin pcbSize
  currentRuntime : Int
  sem : Fin pcbSize → UInt32
  pipes : Fin pcbSize → Option Pipe
  openft : Fin openSize → Option UInt32
  heap : Heap
  fs : Mount
  ram : UInt32 → UInt8
  ctx : Ctx

inductive Table where
  | pcb | fdt | sem | openft | pipes
  deriving DecidableEq, Repr

-- What a run notes: each index that does not come out of a loop over the table or
-- of a pid, each shift count, and each copy of a string with the room that it has.
inductive Touch where
  | slot (table : Table) (index : Int)
  | shift (count : Int)
  | copy (room bytes : Nat)
  deriving DecidableEq, Repr

-- Why a handler does not return: halt(), or the source leaves what C defines. It
-- goes outside a table or a buffer, uses or frees an object that is free, goes
-- through NULL, or has no value to return.
inductive Stop where
  | halted | outside | freed | null | undefined
  deriving DecidableEq, Repr

abbrev Sys := Prog Touch Stop Machine

open Prog (read update note stop)

-- An index which the source does not bound itself.
def slot (table : Table) (n : Nat) (index : Int) : Sys (Fin n) := do
  note (.slot table index)
  if bound : index.toNat < n then
    if 0 ≤ index then pure ⟨index.toNat,bound⟩ else stop .outside
  else stop .outside

def running : Sys Pcb := read fun m => m.pcb m.current

def Machine.setPcb (m : Machine) (pid : Fin pcbSize) (f : Pcb → Pcb) : Machine :=
  {m with pcb := put m.pcb pid (f (m.pcb pid))}

def setPcb (pid : Fin pcbSize) (f : Pcb → Pcb) : Sys Unit := update fun m => m.setPcb pid f

def setRunning (f : Pcb → Pcb) : Sys Unit := do setPcb (← read Machine.current) f

-- pcb[current].fdt[fd]
def fdtAt (fd : Int) : Sys Int := do
  let i ← slot .fdt fdtSize fd
  let p ← running
  pure (p.fdt i)

def setFdt (fd : Fin fdtSize) (i : Int) : Sys Unit := setRunning fun p => {p with fdt := put p.fdt fd i}

-- openft[i]
def openftAt (i : Int) : Sys (Option UInt32) := do
  let i ← slot .openft openSize i
  read fun m => m.openft i

def setOpenft (i : Fin openSize) (p : Option UInt32) : Sys Unit := update fun m => {m with openft := put m.openft i p}

def setSem (i : Fin pcbSize) (v : UInt32) : Sys Unit := update fun m => {m with sem := put m.sem i v}

def setPipe (i : Fin pcbSize) (p : Option Pipe) : Sys Unit := update fun m => {m with pipes := put m.pipes i p}

-- The object behind a pointer.
def deref : Option UInt32 → Sys (UInt32 × Fdte)
  | none => stop .null
  | some p => do
    match ← read fun m => m.heap.fdtes p with
    | none => stop .freed
    | some e => pure (p,e)

def setHeap (f : Heap → Heap) : Sys Unit := update fun m => {m with heap := f m.heap}

def setFdte (p : UInt32) (e : Option Fdte) : Sys Unit :=
  setHeap fun h => {h with fdtes := fun q => if q = p then e else h.fdtes q}

-- Each allocation takes the next answer.
def ask : Sys (Nat × UInt32) := do
  let h ← read Machine.heap
  setHeap fun h => {h with asked := h.asked + 1}
  pure (h.asked,h.answer h.asked)

-- An answer that would hand out memory in use counts as NULL.
def mallocFdte : Sys (Option UInt32) := do
  let (n,p) ← ask
  let h ← read Machine.heap
  if p = 0 ∨ (h.fdtes p).isSome then pure none
  else do
    setFdte p (some (h.junk n))
    pure (some p)

def apart (p q : UInt32) : Bool := p.toNat + stackBytes ≤ q.toNat || q.toNat + stackBytes ≤ p.toNat

def mallocStack : Sys UInt32 := do
  let (_,p) ← ask
  let h ← read Machine.heap
  if p ≠ 0 ∧ p.toNat + stackBytes ≤ 0x100000000 ∧ h.areas.all (apart p) then do
    setHeap fun h => {h with areas := p :: h.areas}
    pure p
  else pure 0

def mallocPipe : Sys (Option Pipe) := do
  let (n,p) ← ask
  let h ← read Machine.heap
  pure (if p = 0 then none else some (h.junkPipe n))

-- For an object whose address is of no account.
def malloc : Sys Bool := do
  let (_,p) ← ask
  pure (p ≠ 0)

def freeFdte : Option UInt32 → Sys Unit
  | none => pure ()
  | some p => do
    let (p,_) ← deref (some p)
    setFdte p none

def freeStack (p : UInt32) : Sys Unit := do
  let h ← read Machine.heap
  if p = 0 then pure ()
  else if p ∈ h.areas then setHeap fun h => {h with areas := h.areas.erase p}
  else stop .freed

-- Calls of fs2.c on the volume.
def fs {α : Type} (f : Mount → Option (Mount × α)) : Sys α :=
  Prog.lift Machine.fs (fun m s => {m with fs := s}) .undefined f

-- Stores into the memory of the user programs.
def poke (start : UInt32) (bytes : List UInt8) : Sys Unit :=
  update fun m => {m with ram := fun a => bytes.getD (a - start).toNat (m.ram a)}

def gpr (n : Fin 13) : Sys UInt32 := read fun m => m.ctx.gpr n

def setCtx (f : Ctx → Ctx) : Sys Unit := update fun m => {m with ctx := f m.ctx}

def setGpr (n : Fin 13) (w : UInt32) : Sys Unit := setCtx fun r => {r with gpr := put r.gpr n w}

def ofBool (b : Bool) : UInt32 := if b then 1 else 0

end ArchiveOs.Kernel
