import ArchiveOs.KernelData

-- Paths, the file table and the pipes of the kernel (hilevel.c, the file system
-- part and do_pipe to do_cd).
namespace ArchiveOs.Kernel
open Fs2
open Prog (read update note stop)

-- The C string at an address; `n` bytes of the memory are left to look at.
def stringFrom (ram : UInt32 → UInt8) : (n : Nat) → (a : UInt32) → List UInt8
  | 0,_ => []
  | n + 1,a => if ram a = 0 then [] else ram a :: stringFrom ram n (a + 1)

theorem stringFrom_noNul (ram : UInt32 → UInt8) (n : Nat) (a : UInt32) : 0 ∉ stringFrom ram n a := by
  induction n generalizing a with
  | zero => exact List.not_mem_nil
  | succ n ih =>
      unfold stringFrom
      split
      · exact List.not_mem_nil
      · rename_i used
        intro member
        rcases List.mem_cons.mp member with zero | later
        · exact used zero.symm
        · exact ih _ later

def stringAt (ram : UInt32 → UInt8) (a : UInt32) : Path := ⟨stringFrom ram 0x100000000 a,stringFrom_noNul ram 0x100000000 a⟩

theorem join_noNul {wd path : List UInt8} (one : 0 ∉ wd) (two : 0 ∉ path) : 0 ∉ wd ++ slash :: path := by
  intro member
  rcases List.mem_append.mp member with first | next
  · exact one first
  · rcases List.mem_cons.mp next with zero | last
    · cases zero
    · exact two last

def joinPath (wd path : Path) : Path := ⟨wd.bytes ++ slash :: path.bytes,join_noNul wd.noNul path.noNul⟩

-- strcpy into a buffer of `room` bytes.
def strcpy (room : Nat) (s : Path) : Sys Unit := do
  note (.copy room (s.bytes.length + 1))
  if room < s.bytes.length + 1 then stop .outside else pure ()

-- The string wd/path is put together in the 256 bytes of scratchpath.
def absPathR (path : UInt32) (wd : Path) : Sys Path := do
  let ram ← read Machine.ram
  if path = 0 ∨ ram path = 0 then pure wd
  else if ram path = slash then pure (stringAt ram (path + 1))
  else if wd.bytes = [] then pure (stringAt ram path)
  else do
    strcpy 256 (joinPath wd (stringAt ram path))
    pure (joinPath wd (stringAt ram path))

def absPath (path : UInt32) : Sys Path := do absPathR path (← running).wd

def fmodeFromFlags (flags : UInt8) : Fmode :=
  let flags := flags &&& 3
  if flags = 3 then .rw else if flags = 2 then .w else if flags = 1 then .r else .null

-- do_pipe from its step 4 on: the two ends go to rind_g and wind_g.
def makePipe (pipefds : UInt32) (rindP windP : Fin fdtSize) (pindex : Fin pcbSize) (rindG windG : Fin openSize) :
    Sys Bool := do
  let pipe ← mallocPipe
  setPipe pindex pipe
  match pipe with
  | none => pure false
  | some pipe => do
    match ← mallocFdte with
    | none => pure false
    | some rend => do
      match ← mallocFdte with
      | none => pure false
      | some wend => do
        setPipe pindex (some (pipeReset pipe))
        let (_,r) ← deref (some rend)
        let (_,w) ← deref (some wend)
        setFdte rend (some {r with
          type := .pipe,id := UInt32.ofNat pindex,openCount := 1,mode := .r,cursor := UInt32.ofNat windG})
        setFdte wend (some {w with
          type := .pipe,id := UInt32.ofNat pindex,openCount := 1,mode := .w,cursor := UInt32.ofNat rindG})
        setOpenft rindG (some rend)
        setOpenft windG (some wend)
        setFdt rindP rindG
        setFdt windP windG
        poke pipefds (Layout.word32 (UInt32.ofNat rindP)).toList
        poke (pipefds + 4) (Layout.word32 (UInt32.ofNat windP)).toList
        pure true

def doPipe (pipefds : UInt32) : Sys Bool := do
  let fdt := (← running).fdt
  match firstFrom (fun i => fdt i = -1) 0 with
  | none => pure false
  | some rindP =>
    match firstFrom (fun i => fdt i = -1) (rindP + 1) with
    | none => pure false
    | some windP => do
      let pipes ← read Machine.pipes
      match firstFrom (fun i => (pipes i).isNone) 0 with
      | none => pure false
      | some pindex => do
        let openft ← read Machine.openft
        match firstFrom (fun i => (openft i).isNone) 0 with
        | none => pure false
        | some rindG =>
          match firstFrom (fun i => (openft i).isNone) (rindG + 1) with
          | none => pure false
          | some windG => makePipe pipefds rindP windP pindex rindG windG

-- The last part of do_open. The block for the copy of the path has no room for its
-- NUL, and the allocator rounds it up: the copy is noted and goes on.
def fillFile (i : Fin openSize) (p : Option UInt32) (apath : Path) (flags : UInt8) : Sys Int := do
  let (p,fd) ← deref p
  setFdte p (some {fd with type := .file,mode := fmodeFromFlags flags})
  if ← malloc then do
    note (.copy apath.bytes.length (apath.bytes.length + 1))
    setFdte p (some {fd with type := .file,mode := fmodeFromFlags flags,path := apath,cursor := 0,openCount := 1})
    pure i
  else pure (-1)

-- The global file descriptor, or -1. The entry of the table is taken first.
def doOpen (path : UInt32) (flags : UInt8) : Sys Int := do
  if flags = 0 then pure (-1)
  else do
    let openft ← read Machine.openft
    match firstFrom (fun i => (openft i).isNone) 0 with
    | none => pure (-1)
    | some i => do
      let p ← mallocFdte
      setOpenft i p
      match p with
      | none => pure (-1)
      | some p => do
        let apath ← absPath path
        let success ← fs fun s => isftype s apath ftypeFile
        let success ← if ¬ success ∧ flags ≥ 4 then fs fun s => create s ftypeFile apath else pure success
        if success then fillFile i (some p) apath flags else pure (-1)

-- The switch of do_close, for an entry whose count has come to 0.
def dropFdte (i : Int) (p : UInt32) (fde : Fdte) (fd : Fin fdtSize) : Sys Bool :=
  match fde.type with
  | .pipe => do
    let other ← openftAt fde.cursor.toNat
    freeFdte other
    pure true
  | .uart => pure true
  | .file => do
    freeFdte (some p)
    let i ← slot .openft openSize i
    setOpenft i none
    setFdt fd (-1)
    pure true
  | .kern => pure false

def closeSlot (fd : Fin fdtSize) : Sys Bool := do
  let i ← fdtAt fd
  if i = -1 then pure false
  else do
    setFdt fd (-1)
    let (p,fde) ← deref (← openftAt i)
    let fde := {fde with openCount := fde.openCount - 1}
    setFdte p (some fde)
    if fde.openCount > 0 then pure true else dropFdte i p fde fd

def doClose (fd : Int) : Sys Bool :=
  if bound : fd.toNat < fdtSize then
    if 0 ≤ fd then closeSlot ⟨fd.toNat,bound⟩ else pure false
  else pure false

-- For an FT_KERN entry do_write and do_read have no value.
def writeEntry (p : UInt32) (fde : Fdte) (src : UInt32) (nchars : UInt32) : Sys Int := do
  let ram ← read Machine.ram
  match fde.type with
  | .uart => pure (toInt nchars)
  | .pipe => do
    let id ← slot .pipes pcbSize fde.id.toNat
    match ← read fun m => m.pipes id with
    | none => stop .null
    | some pipe => do
      let (pipe,n) := pipeWrite pipe (fun k => ram (src + UInt32.ofInt k)) (toInt nchars) 0
      setPipe id (some pipe)
      pure n
  | .file => do
    let n ← fs fun s => write s fde.path (fun k => ram (src + UInt32.ofNat k)) nchars fde.cursor
    if n ≥ 0 then setFdte p (some {fde with cursor := fde.cursor + UInt32.ofInt n}) else pure ()
    pure n
  | .kern => stop .undefined

def doWrite (fd : Int) (src nchars : UInt32) : Sys Int := do
  let i ← fdtAt fd
  if i = -1 then pure (-1)
  else do
    match ← openftAt i with
    | none => pure (-1)
    | some p => do
      let (p,fde) ← deref (some p)
      if fde.mode = .w ∨ fde.mode = .rw then writeEntry p fde src nchars else pure 0

-- `if (out[j] = '\x0A')` stores the newline: the first character ends every readline.
def readEntry (p : UInt32) (fde : Fdte) (out nchars : UInt32) : Sys Int := do
  match fde.type with
  | .uart => do
    if 0 < toInt nchars then poke out [0] else pure ()
    pure 0
  | .pipe => do
    let id ← slot .pipes pcbSize fde.id.toNat
    match ← read fun m => m.pipes id with
    | none => stop .null
    | some pipe => do
      let (pipe,bytes,n) := pipeRead pipe (toInt nchars) 0
      setPipe id (some pipe)
      poke out bytes
      pure n
  | .file => do
    let (n,bytes) ← fs fun s => (Fs2.read s fde.path nchars fde.cursor).map fun r => (r.1,r.2.1,r.2.2)
    poke out bytes
    if n ≥ 0 then setFdte p (some {fde with cursor := fde.cursor + UInt32.ofInt n}) else pure ()
    pure n
  | .kern => stop .undefined

def doRead (fd : Int) (out nchars : UInt32) : Sys Int := do
  let i ← fdtAt fd
  if i = -1 then pure (-1)
  else do
    match ← openftAt i with
    | none => pure (-1)
    | some p => do
      let (p,fde) ← deref (some p)
      if fde.mode = .r ∨ fde.mode = .rw then readEntry p fde out nchars else pure 0

def doCd (cd : UInt32) : Sys Bool := do
  let apath ← absPath cd
  if ← fs fun s => isftype s apath ftypeDir then do
    strcpy 256 apath
    setRunning fun p => {p with wd := apath}
    pure true
  else pure false

end ArchiveOs.Kernel
