import ArchiveOs.KernelProcs

-- The interrupt handlers (hilevel_handler_rst, _irq and _svc), and the runs of the
-- kernel.
namespace ArchiveOs.Kernel
open Fs2
open Prog (read update note stop)

def svcYield : Sys Unit := next .ready

def svcWrite : Sys Unit := do
  let n ← doWrite (toInt (← gpr 0)) (← gpr 1) (← gpr 2)
  setGpr 0 (UInt32.ofInt n)

def svcRead : Sys Unit := do
  let n ← doRead (toInt (← gpr 0)) (← gpr 1) (← gpr 2)
  setGpr 0 (UInt32.ofInt n)

def svcExit : Sys Unit := do
  doExit
  next .terminated

def svcKill : Sys Unit := do doKill (toInt (← gpr 0))

def svcNice : Sys Unit := do
  let pid := toInt (← gpr 0)
  let newp := toInt (← gpr 1)
  if pid < 0 ∨ pid ≥ pcbSize ∨ newp < 0 then pure ()
  else do
    let pid ← slot .pcb pcbSize pid
    setPcb pid fun p => {p with basePriority := newp}

-- The check is made on `init` only; sem_id is unsigned.
def svcSemInit : Sys Unit := do
  let semId ← gpr 0
  let init ← gpr 1
  if init.toNat ≥ pcbSize then setGpr 0 (ofBool false)
  else do
    let i ← slot .sem pcbSize semId.toNat
    let v ← read fun m => m.sem i
    doSemPost semId (init - v)
    setGpr 0 (ofBool true)

def svcSemPost : Sys Unit := do doSemPost (← gpr 0) (← gpr 1)

def svcSemWait : Sys Unit := do
  if ← doSemWait (← gpr 0) (← gpr 1) then pure () else next .waiting

def svcOpen : Sys Unit := do
  let fdt := (← running).fdt
  match firstFrom (fun i => fdt i = -1) 0 with
  | none => setGpr 0 (UInt32.ofInt (-1))
  | some i => do
    let f ← doOpen (← gpr 0) (← gpr 1).toUInt8
    if f ≠ -1 then do
      setFdt i f
      setGpr 0 (UInt32.ofNat i)
    else setGpr 0 (UInt32.ofInt (-1))

def svcClose : Sys Unit := do
  let done ← doClose (toInt (← gpr 0))
  setGpr 0 (ofBool done)

def svcFdSwap : Sys Unit := do
  let fd1 := toInt (← gpr 0)
  let fd2 := toInt (← gpr 1)
  if fd1 < 0 ∨ fd2 < 0 ∨ fd1 ≥ fdtSize ∨ fd2 ≥ fdtSize then setGpr 0 (ofBool false)
  else do
    let t ← fdtAt fd1
    let u ← fdtAt fd2
    let i ← slot .fdt fdtSize fd1
    setFdt i u
    let i ← slot .fdt fdtSize fd2
    setFdt i t
    setGpr 0 (ofBool true)

def svcPipe : Sys Unit := do
  let _ ← doPipe (← gpr 0)

def svcExecx : Sys Unit := do
  doExec
  setGpr 0 (← gpr 1)

def svcIsType (ftype : UInt8) : Sys Unit := do
  let path ← absPath (← gpr 0)
  let yes ← fs fun s => isftype s path ftype
  setGpr 0 (ofBool yes)

def svcCd : Sys Unit := do
  let done ← doCd (← gpr 0)
  setGpr 0 (ofBool done)

def svcLs : Sys Unit := do
  let path ← absPath (← gpr 0)
  let n ← gpr 2
  let (done,out) ← fs fun s => (ls s path (toInt n)).map fun r => (r.1,r.2.1,r.2.2)
  poke (← gpr 1) out
  setGpr 0 (ofBool done)

def svcRm : Sys Unit := do
  let path ← absPath (← gpr 0)
  let done ← fs fun s => rm s path
  setGpr 0 (ofBool done)

def svcMake (ftype : UInt8) : Sys Unit := do
  let path ← absPath (← gpr 0)
  let done ← fs fun s => create s ftype path
  setGpr 0 (ofBool done)

-- strncpy stores exactly as many bytes as it is told.
def svcGetwd : Sys Unit := do
  let dst ← gpr 0
  let n ← gpr 1
  let p ← running
  update fun m => {m with ram := fun a =>
    if (a - dst).toNat < n.toNat then p.wd.bytes.getD (a - dst).toNat 0 else m.ram a}
  setGpr 0 (ofBool true)

def svc (id : UInt32) : Sys Unit :=
  match id.toNat with
  | 0x00 => svcYield
  | 0x01 => svcWrite
  | 0x02 => svcRead
  | 0x03 => doFork
  | 0x04 => svcExit
  | 0x05 => doExec
  | 0x06 => svcKill
  | 0x07 => svcNice
  | 0x08 => svcSemInit
  | 0x09 => svcSemPost
  | 0x0A => svcSemWait
  | 0x0B => svcOpen
  | 0x0C => svcClose
  | 0x0D => svcFdSwap
  | 0x0E => svcPipe
  | 0x0F => svcExecx
  | 0x10 => svcIsType ftypeFile
  | 0x11 => svcIsType ftypeDir
  | 0x12 => svcCd
  | 0x13 => svcLs
  | 0x14 => svcRm
  | 0x15 => svcMake ftypeFile
  | 0x16 => svcMake ftypeDir
  | 0x18 => svcGetwd
  | _ => pure ()

abbrev gicSourceTimer0 : UInt32 := 36

def irq (id : UInt32) : Sys Unit := if id = gicSourceTimer0 then schedule else pure ()

-- What is on the UART at boot is left out.
def initFs : Sys Unit := do
  let s ← read Machine.fs
  let s := loadVolume {s with vol := {s.vol with blk0 := 0,outcome := .success}}
  if s.vol.outcome = .success then fs fun _ => (blockDump s).map fun s => (s,())
  else fs fun _ => (formatVolume s 100 (uRead ||| uWrite) 4 1 2).map fun s => (s,())

def uart0 : UInt32 := 0x10009000

def openUart (i : Fin openSize) (mode : Fmode) : Sys Unit := do
  let p ← mallocFdte
  let (q,fd) ← deref p
  setFdte q (some {fd with type := .uart,id := uart0,mode})
  setOpenft i p

-- `entry` is the address of INIT_PROGRAM.
def startInit (entry : UInt32) : Sys Unit := do
  openUart 0 .r
  openUart 1 .w
  openUart 2 .w
  match ← newUserProc entry 5 with
  | none => stop .null
  | some p => contextSwitch none p .created

def boot (entry : UInt32) : Sys Unit := do
  initFs
  startInit entry

-- The globals before the reset handler runs, all of them zero. The heap is empty,
-- and the stack of the first process, which is its fourth object, fits into it.
structure Machine.Zero (m : Machine) : Prop where
  pcballoc : m.pcballoc = 0
  currentRuntime : m.currentRuntime = 0
  pid : ∀ i,(m.pcb i).pid = 0
  status : ∀ i,(m.pcb i).status = .created
  fdt : ∀ i fd,(m.pcb i).fdt fd = 0
  wd : ∀ i,(m.pcb i).wd.bytes = []
  sem : ∀ i,m.sem i = 0
  pipes : ∀ i,m.pipes i = none
  openft : ∀ i,m.openft i = none
  fdtes : ∀ p,m.heap.fdtes p = none
  areas : m.heap.areas = []
  asked : m.heap.asked = 0
  room : m.heap.answer 3 ≠ 0 ∧ (m.heap.answer 3).toNat + stackBytes ≤ 0x100000000

inductive Event where
  | svc (id : UInt32)
  | irq (id : UInt32)
  deriving DecidableEq, Repr

def handle : Event → Sys Unit
  | .svc id => svc id
  | .irq id => irq id

-- The machine as a handler finds it: since the last one has returned, the user
-- programs may have done anything to the registers and to their memory.
def Machine.enter (m : Machine) (ctx : Ctx) (ram : UInt32 → UInt8) : Machine := {m with ctx := ctx,ram := ram}

-- A machine that can be reached from the reset, by calls that satisfy `admits`.
inductive Reached (admits : Machine → Event → Prop) : Machine → Prop where
  | boot {zero m : Machine} {entry : UInt32} : zero.Zero → (boot entry).Ends zero () m → Reached admits m
  | call {m m' : Machine} {e : Event} {ctx : Ctx} {ram : UInt32 → UInt8} : Reached admits m →
      admits (m.enter ctx ram) e → (handle e).Ends (m.enter ctx ram) () m' → Reached admits m'

end ArchiveOs.Kernel
