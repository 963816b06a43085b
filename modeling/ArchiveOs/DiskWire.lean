import ArchiveOs.Duplex
import ArchiveOs.VolumeOps
import Mathlib.Data.List.DropRight

-- The disk behind UART2: the driver (PL011.c and disk.c), the program at the other end
-- (disk.py), and the lines that they exchange.
namespace ArchiveOs.Serial
open Duplex Talk

abbrev newline : UInt8 := 0x0A
abbrev space : UInt8 := 0x20

section Driver

def xtoi (x : UInt8) : Int :=
  if 0x30 ≤ x ∧ x ≤ 0x39 then (x.toNat : Int) - 0x30
  else if 0x61 ≤ x ∧ x ≤ 0x66 then 10 + ((x.toNat : Int) - 0x61)
  else if 0x41 ≤ x ∧ x ≤ 0x46 then 10 + ((x.toNat : Int) - 0x41)
  else -1

def itox (x : Int) : UInt8 :=
  if 0 ≤ x ∧ x ≤ 9 then UInt8.ofInt (0x30 + x)
  else if 10 ≤ x ∧ x ≤ 15 then UInt8.ofInt (0x41 + (x - 10))
  else UInt8.ofInt (-1)

-- Every call of the disk driver waits for the line.
def putc (x : UInt8) : Talk UInt8 Unit := send x
def getc : Talk UInt8 UInt8 := recv

def puth (x : UInt8) : Talk UInt8 Unit := do
  putc (itox ((x >>> 4) &&& 0xF).toNat)
  putc (itox (x &&& 0xF).toNat)

def geth : Talk UInt8 UInt8 := do
  let hi ← getc
  let lo ← getc
  pure (UInt8.ofInt (xtoi hi * 16) ||| UInt8.ofInt (xtoi lo))

def addrPuth (x : UInt32) : Talk UInt8 Unit := do
  puth (x &&& 0xFF).toUInt8
  puth ((x >>> 8) &&& 0xFF).toUInt8
  puth ((x >>> 16) &&& 0xFF).toUInt8
  puth ((x >>> 24) &&& 0xFF).toUInt8

def dataPuth : List UInt8 → Talk UInt8 Unit
  | [] => pure ()
  | x :: xs => do
    puth x
    dataPuth xs

def dataGeth : Nat → Talk UInt8 (List UInt8)
  | 0 => pure []
  | n + 1 => do
    let x ← geth
    let xs ← dataGeth n
    pure (x :: xs)

def diskRetry : Nat := 3
def diskSuccess : Int := 0
def diskFailure : Int := -1

-- The answer to a request: the data of a good one, n bytes of it if there are any.
def reply (n : Option Nat) : Talk UInt8 (Option (List UInt8)) := do
  if (← geth) = 0x00 then
    match n with
    | some n => do
      let _ ← getc
      let x ← dataGeth n
      let _ ← getc
      pure (some x)
    | none => do
      let _ ← getc
      pure (some [])
  else
    let _ ← getc
    pure none

def askConf : Talk UInt8 (Option (List UInt8)) := do
  puth 0x00
  putc newline
  reply (some 8)

-- disk_get_block_num and disk_get_block_len differ in the half that they look at.
def diskGet (half : Nat) : Talk UInt8 Int := do
  match ← retry askConf diskRetry with
  | some x => pure (Fs2.toInt ((x.getD half 0).toUInt32 ||| (x.getD (half + 1) 0).toUInt32 <<< 8 |||
      (x.getD (half + 2) 0).toUInt32 <<< 16 ||| (x.getD (half + 3) 0).toUInt32 <<< 24))
  | none => pure diskFailure

def diskGetBlockNum : Talk UInt8 Int := diskGet 0
def diskGetBlockLen : Talk UInt8 Int := diskGet 4

def askWr (a : UInt32) (x : List UInt8) : Talk UInt8 (Option (List UInt8)) := do
  puth 0x01
  putc space
  addrPuth a
  putc space
  dataPuth x
  putc newline
  reply none

def diskWr (a : UInt32) (x : List UInt8) : Talk UInt8 Int := do
  match ← retry (askWr a x) diskRetry with
  | some _ => pure diskSuccess
  | none => pure diskFailure

def askRd (a : UInt32) (n : Nat) : Talk UInt8 (Option (List UInt8)) := do
  puth 0x02
  putc space
  addrPuth a
  putc newline
  reply (some n)

-- The buffer x is written when the data has come.
def diskRd (a : UInt32) (x : List UInt8) : Talk UInt8 (Int × List UInt8) := do
  match ← retry (askRd a x.length) diskRetry with
  | some data => pure (diskSuccess,data)
  | none => pure (diskFailure,x)

end Driver

-- disk.py. An exception ends it.
section Program

def unhexDigit (c : UInt8) : Option Nat :=
  if 0x30 ≤ c ∧ c ≤ 0x39 then some (c.toNat - 0x30)
  else if 0x61 ≤ c ∧ c ≤ 0x66 then some (c.toNat - 0x61 + 10)
  else if 0x41 ≤ c ∧ c ≤ 0x46 then some (c.toNat - 0x41 + 10)
  else none

def unhexlify : List UInt8 → Option (List UInt8)
  | [] => some []
  | [_] => none
  | a :: b :: rest => do
    let hi ← unhexDigit a
    let lo ← unhexDigit b
    let xs ← unhexlify rest
    pure (UInt8.ofNat (16 * hi + lo) :: xs)

def hexDigit (n : Nat) : UInt8 := UInt8.ofNat (if n < 10 then 0x30 + n else 0x61 + (n - 10))

def hexlify (xs : List UInt8) : List UInt8 := xs.flatMap fun x => [hexDigit (x.toNat / 16),hexDigit (x.toNat % 16)]

-- struct.pack('<l',n) and struct.unpack('<l',xs)[0]
def pack (n : Nat) : Option (List UInt8) :=
  if n < 2147483648 then some [UInt8.ofNat n,UInt8.ofNat (n / 256),UInt8.ofNat (n / 65536),UInt8.ofNat (n / 16777216)]
  else none

def unpack : List UInt8 → Option Int
  | [a,b,c,d] => some (Fs2.toInt (UInt32.ofNat (a.toNat + 256 * b.toNat + 65536 * c.toNat + 16777216 * d.toNat)))
  | _ => none

def isSpace (c : UInt8) : Bool := c = 0x20 || (0x09 ≤ c && c ≤ 0x0D)

def strip (s : List UInt8) : List UInt8 := (s.dropWhile isSpace).rdropWhile isSpace

-- A write behind the end of a file fills the gap with zeros.
def overwrite (file : List UInt8) (off : Nat) (xs : List UInt8) : List UInt8 :=
  (file ++ List.replicate (off - file.length) 0).take off ++ (xs ++ file.drop (off + xs.length))

-- The arguments, the file behind the disk, and what has been read of the next line. The
-- operating system may cut os.write and os.read short: by how much is decided outside.
structure Server where
  blockNum : Nat
  blockLen : Nat
  file : List UInt8
  line : List UInt8
  alive : Bool
  writes : Nat
  reads : Nat
  wrCut : Nat → Nat
  rdCut : Nat → Nat

def ackOkay : List UInt8 := [0x30,0x30]
def ackFail : List UInt8 := [0x30,0x31]

abbrev Ack := List (List UInt8)

def conf (s : Server) : Option (Server × Ack) := do
  let num ← pack s.blockNum
  let len ← pack s.blockLen
  some (s,[ackOkay,num ++ len])

def wr (s : Server) (req : List (List UInt8)) : Option (Server × Ack) := do
  let address ← unpack (← unhexlify (← req[1]?))
  let data ← unhexlify (← req[2]?)
  if s.blockNum ≤ address then some (s,[ackFail])
  else if data.length ≠ s.blockLen then some (s,[ackFail])
  else if address * s.blockLen < 0 then none
  else
    let n := data.length - s.wrCut s.writes
    let s := {s with file := overwrite s.file (address.toNat * s.blockLen) (data.take n),writes := s.writes + 1}
    if data.length ≠ n then some (s,[ackFail]) else some (s,[ackOkay])

def rd (s : Server) (req : List (List UInt8)) : Option (Server × Ack) := do
  let address ← unpack (← unhexlify (← req[1]?))
  if s.blockNum ≤ address then some (s,[ackFail])
  else if address * s.blockLen < 0 then none
  else
    let data := (s.file.drop (address.toNat * s.blockLen)).take (s.blockLen - s.rdCut s.reads)
    let s := {s with reads := s.reads + 1}
    if data.length ≠ s.blockLen then some (s,[ackFail]) else some (s,[ackOkay,data])

def serve (s : Server) (line : List UInt8) : Option (Server × Ack) :=
  let req := (strip line).splitOn space
  if req[0]? = some [0x30,0x30] then conf s
  else if req[0]? = some [0x30,0x31] then wr s req
  else if req[0]? = some [0x30,0x32] then rd s req
  else some (s,[ackFail])

-- The acknowledgement as a line.
def Ack.text : Ack → List UInt8
  | [] => []
  | [ack] => ack
  | ack :: data => ack ++ space :: [space].intercalate (data.map hexlify)

-- One character comes in.
def Server.react (s : Server) (c : UInt8) : Server × List UInt8 :=
  if s.alive = false then (s,[])
  else if c ≠ newline then ({s with line := s.line ++ [c]},[])
  else
    match serve {s with line := []} (s.line ++ [c]) with
    | none => ({s with alive := false},[])
    | some (s,ack) => (s,ack.text ++ [newline])

end Program

end ArchiveOs.Serial
