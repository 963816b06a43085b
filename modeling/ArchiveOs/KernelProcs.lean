import ArchiveOs.KernelFiles

-- Processes, scheduling and semaphores (hilevel.c).
namespace ArchiveOs.Kernel
open Fs2
open Prog (read update note stop search)

def bit (pid : Fin pcbSize) : UInt32 := 1 <<< UInt32.ofNat pid

def alive (alloc : UInt32) (pid : Fin pcbSize) : Bool := (alloc >>> UInt32.ofNat pid) &&& 1 == 1

def processExists (pid : Fin pcbSize) : Sys Bool := do
  note (.shift pid)
  read fun m => alive m.pcballoc pid

-- status < STATUS_EXECUTING
def Status.canRun (s : Status) : Bool := s = .created || s = .ready

def processCanRun (pid : Fin pcbSize) : Sys Bool := do
  if ← processExists pid then read fun m => (m.pcb pid).status.canRun else pure false

def contextSwitch (old : Option (Fin pcbSize)) (new : Fin pcbSize) (oldStat : Status) : Sys Unit := do
  match old with
  | none => pure ()
  | some old => do
    let ctx ← read Machine.ctx
    setPcb old fun p => {p with ctx := ctx,status := oldStat}
  let p ← read fun m => m.pcb new
  setCtx fun _ => p.ctx
  setPcb new fun p => {p with status := .executing}
  update fun m => {m with current := p.pid}

-- Round robin: nothing happens when no other process can run.
def next (curStat : Status) : Sys Unit := do
  update fun m => {m with currentRuntime := 0}
  let current ← read Machine.current
  match ← search processCanRun current pcbSize (current + 1) with
  | none => pure ()
  | some i => contextSwitch (some current) i curStat

def schedule : Sys Unit := do
  let runtime ← read Machine.currentRuntime
  let p ← running
  if runtime ≥ p.basePriority then next .ready else pure ()
  update fun m => {m with currentRuntime := m.currentRuntime + 1}

-- The test of the bit stands before the test of the index: when all entries are
-- taken, the loop shifts by 32 before it stops.
def freeEntry : List (Fin pcbSize) → Sys (Option (Fin pcbSize))
  | [] => do
    note (.shift pcbSize)
    pure none
  | i :: rest => do
    if ← processExists i then freeEntry rest else pure (some i)

-- `none` is PCB_SIZE.
def newPcbEntry : Sys (Option (Fin pcbSize)) := do
  match ← freeEntry (List.finRange pcbSize) with
  | none => pure none
  | some i => do
    update fun m => {m with pcballoc := m.pcballoc ||| bit i}
    pure (some i)

def newUserProc (entry : UInt32) (priority : Int) : Sys (Option (Fin pcbSize)) := do
  match ← newPcbEntry with
  | none => pure none
  | some i => do
    let stack ← mallocStack
    setPcb i fun _ => {
      pid := i,status := .created,basePriority := priority,waiting := ⟨0,0⟩,stack
      fdt := put (put (put (fun _ => -1) 0 0) 1 1) 2 2
      wd := emptyPath
      ctx := {cpsr := 0x50,pc := entry,gpr := fun _ => 0,sp := stack + 0x1000,lr := 0}}
    pure (some i)

def closeAll : List (Fin fdtSize) → Sys Unit
  | [] => pure ()
  | fd :: rest => do
    if (← running).fdt fd ≠ -1 then do
      let _ ← doClose fd.val
      closeAll rest
    else closeAll rest

-- pcballoc -= (1 << pid)
def dropBit (pid : Fin pcbSize) : Sys Unit := do
  note (.shift pid)
  update fun m => {m with pcballoc := m.pcballoc - bit pid}

def haltIfNone : Sys Unit := do
  let alloc ← read Machine.pcballoc
  if alloc = 0 then stop .halted else pure ()

def doExit : Sys Unit := do
  setRunning fun p => {p with status := .terminated,basePriority := -1}
  freeStack (← running).stack
  closeAll (List.finRange fdtSize)
  dropBit (← read Machine.current)
  haltIfNone

-- The references that fork makes, one for each used slot.
def shareAll : List (Fin fdtSize) → Sys Unit
  | [] => pure ()
  | fd :: rest => do
    let i := (← running).fdt fd
    if i ≠ -1 then do
      let (p,fde) ← deref (← openftAt i)
      setFdte p (some {fde with openCount := fde.openCount + 1})
      shareAll rest
    else shareAll rest

def copyStack (child parent : UInt32) : Sys Unit :=
  update fun m => {m with ram := fun a =>
    if (a - child).toNat < stackBytes then m.ram (parent + (a - child)) else m.ram a}

-- The rest of do_fork, once there is a stack for the child. The cast of the stack
-- pointers makes their difference one in bytes.
def bear (child : Fin pcbSize) (stack : UInt32) : Sys Unit := do
  copyStack stack (← running).stack
  setPcb child fun p => {p with pid := child,status := .created}
  let sCur := (← running).stack
  setPcb child fun p => {p with
    ctx := {p.ctx with sp := p.ctx.sp + (stack - sCur),gpr := put p.ctx.gpr 0 0},stack := stack}
  setGpr 0 (UInt32.ofNat child)
  shareAll (List.finRange fdtSize)

def doFork : Sys Unit := do
  let ctx ← read Machine.ctx
  setRunning fun p => {p with ctx := ctx}
  match ← newPcbEntry with
  | none => setGpr 0 (UInt32.ofInt (-1))
  | some child => do
    let parent ← running
    setPcb child fun _ => parent
    let stack ← mallocStack
    if stack = 0 then setGpr 0 (UInt32.ofInt (-2))
    else bear child stack

def doExec : Sys Unit := do
  let entry ← gpr 0
  let p ← running
  setCtx fun r => {r with pc := entry,sp := p.stack + 0x1000,cpsr := 0x50}

def killProcess (pid : Fin pcbSize) : Sys Unit := do
  if ← processExists pid then do
    dropBit pid
    freeStack (← read fun m => (m.pcb pid).stack)
  else pure ()
  haltIfNone

def doKill (pid : Int) : Sys Unit :=
  if bound : pid.toNat < pcbSize then
    if 0 ≤ pid then killProcess ⟨pid.toNat,bound⟩ else pure ()
  else pure ()

-- Process i waits for the semaphore, for no more than x.
def eligible (semId x : UInt32) (i : Fin pcbSize) : Sys Bool := do
  if ← processExists i then
    read fun m => (m.pcb i).status = .waiting && ((m.pcb i).waiting.semId == semId && (m.pcb i).waiting.x ≤ x)
  else pure false

def postSem (sem : Fin pcbSize) (semId x : UInt32) : Sys Unit := do
  let current ← read Machine.current
  match ← search (eligible semId x) current pcbSize (current + 1) with
  | some i => do
    let p ← read fun m => m.pcb i
    update fun m => {m with sem := put m.sem sem (m.sem sem + (x - p.waiting.x))}
    setPcb i fun p => {p with status := .ready}
  | none => update fun m => {m with sem := put m.sem sem (m.sem sem + x)}

def doSemPost (semId x : UInt32) : Sys Unit :=
  if bound : semId.toNat < pcbSize then
    if x = 0 then pure () else postSem ⟨semId.toNat,bound⟩ semId x
  else pure ()

-- An invalid semaphore ends the process, and the function goes on.
def doSemWait (semId x : UInt32) : Sys Bool := do
  if semId.toNat ≥ pcbSize then doExit else pure ()
  let i ← slot .sem pcbSize semId.toNat
  let v ← read fun m => m.sem i
  if v ≥ x then do
    setSem i (v - x)
    pure true
  else do
    setRunning fun p => {p with status := .waiting}
    if ← malloc then do
      setRunning fun p => {p with waiting := ⟨semId,x⟩}
      pure false
    else stop .null

end ArchiveOs.Kernel
