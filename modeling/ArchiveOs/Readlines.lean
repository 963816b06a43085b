import ArchiveOs.ProcCalls
import ArchiveOs.Boots

-- READ on a UART (do_read, the case of FT_UART).
namespace ArchiveOs.Kernel
open Fs2
open Prog

abbrev newline : UInt8 := 0x0A

-- What a read takes from the stream, stores and returns.
structure Line where
  taken : Nat
  stored : List UInt8
  value : Nat
  deriving DecidableEq

-- The loop from j on; `left` is how far the limit is away. Each character is stored,
-- and then the condition stores the newline in its place and tests that.
def readlineFrom (getc : Nat → UInt8) : (left j : Nat) → (out : List UInt8) → Line
  | 0,j,out => ⟨j,out,j⟩
  | left + 1,j,out =>
    let out := (out ++ [getc j]).set j newline
    if out.getD j 0 ≠ 0 then ⟨j + 1,out.set j 0,j⟩
    else readlineFrom getc left (j + 1) out

def readline (getc : Nat → UInt8) (nchars : Nat) : Line := readlineFrom getc nchars 0 []

-- A line as it is meant: up to the first newline, and no longer than the limit.
inductive ReadsLine (getc : Nat → UInt8) (nchars : Nat) : Line → Prop where
  | whole (k : Nat) : k < nchars → getc k = newline → (∀ j < k,getc j ≠ newline) →
      ReadsLine getc nchars ⟨k + 1,(List.range k).map getc ++ [0],k⟩
  | part : (∀ j < nchars,getc j ≠ newline) → ReadsLine getc nchars ⟨nchars,(List.range nchars).map getc,nchars⟩

theorem readline_first (getc : Nat → UInt8) (n : Nat) : readline getc (n + 1) = ⟨1,[0],0⟩ := rfl

theorem readline_none (getc : Nat → UInt8) : readline getc 0 = ⟨0,[],0⟩ := rfl

theorem readsLine_readline (getc : Nat → UInt8) (n : Nat) :
    ReadsLine getc (n + 1) (readline getc (n + 1)) ↔ getc 0 = newline := by
  rw [readline_first]
  constructor
  · intro reads
    generalize here : Line.mk 1 [0] 0 = l at reads
    cases reads with
    | whole k _ met _ =>
        have first : k = 0 := (congrArg Line.value here).symm
        rw [first] at met
        exact met
    | part =>
        have zero : 0 = n + 1 := congrArg Line.value here
        cases zero
  · intro met
    exact .whole 0 (Nat.succ_pos n) met fun j less => absurd less (Nat.not_lt_zero j)

section Reads
variable {m : Machine} {fd : Int}

-- A descriptor of the running process that leads to a UART which it may read.
structure Machine.Terminal (m : Machine) (fd : Int) : Prop where
  entry : ∃ (k : Fin fdtSize) (i : Fin openSize) (p : UInt32) (e : Fdte),fd = k.val ∧ (m.pcb m.current).fdt k = i.val ∧
    m.openft i = some p ∧ m.heap.fdtes p = some e ∧ e.type = .uart ∧ (e.mode = .r ∨ e.mode = .rw)

def Machine.stores (m : Machine) (out : UInt32) (bytes : List UInt8) : Machine :=
  {m with ram := fun a => bytes.getD (a - out).toNat (m.ram a)}

theorem readEntry_readline {p : UInt32} {e : Fdte} (uart : e.type = .uart) (out nchars : UInt32) (getc : Nat → UInt8) :
    (readEntry p e out nchars).Ends m (readline getc (toInt nchars).toNat).value
      (m.stores out (readline getc (toInt nchars).toNat).stored) := by
  unfold readEntry
  rw [uart]
  simp only [ends_bind,ends_ite,ends_pure]
  by_cases more : 0 < toInt nchars
  · obtain ⟨n,size⟩ : ∃ n,(toInt nchars).toNat = n + 1 := ⟨(toInt nchars).toNat - 1,by omega⟩
    rw [size,readline_first]
    exact .inl ⟨more,(),m.stores out [0],rfl,rfl,rfl⟩
  · have size : (toInt nchars).toNat = 0 := by omega
    rw [size,readline_none]
    exact .inr ⟨more,rfl,rfl⟩

theorem doRead_readline (desc : m.Terminal fd) (out nchars : UInt32) (getc : Nat → UInt8) :
    (doRead fd out nchars).Ends m (readline getc (toInt nchars).toNat).value
      (m.stores out (readline getc (toInt nchars).toNat).stored) := by
  obtain ⟨k,i,p,e,is_k,leads,opened,object,uart,mode⟩ := desc.entry
  unfold doRead fdtAt running openftAt
  simp only [ends_bind,slot_ends,ends_read,ends_pure,ends_ite,ends_pure]
  refine ⟨i.val,m,⟨k,m,⟨is_k,rfl⟩,_,_,⟨rfl,rfl⟩,leads,rfl⟩,.inr ⟨by omega,some p,m,⟨i,m,⟨rfl,rfl⟩,opened,rfl⟩,?_⟩⟩
  simp only [ends_bind,deref_ends,ends_ite]
  exact ⟨(p,e),m,⟨rfl,object,rfl⟩,.inl ⟨mode,readEntry_readline uart out nchars getc⟩⟩

-- What a read of a terminal does is the line that it was asked for exactly when the
-- first character ends it.
theorem uart_reads_line_iff (desc : m.Terminal fd) {out nchars : UInt32} (some : 0 < toInt nchars) (getc : Nat → UInt8) :
    ∃ l : Line,(doRead fd out nchars).Ends m l.value (m.stores out l.stored) ∧
      l = readline getc (toInt nchars).toNat ∧
      (ReadsLine getc (toInt nchars).toNat l ↔ getc 0 = newline) := by
  refine ⟨_,doRead_readline desc out nchars getc,rfl,?_⟩
  obtain ⟨n,size⟩ : ∃ n,(toInt nchars).toNat = n + 1 := ⟨(toInt nchars).toNat - 1,by omega⟩
  rw [size]
  exact readsLine_readline getc n

end Reads

theorem started_terminal : (Machine.started (few 5)).Terminal 0 := by
  have object : ((Machine.started (few 5)).heap.fdtes 0x1000).map (fun e => (e.type,e.mode)) = some (.uart,.r) := by
    decide +kernel
  obtain ⟨e,here,kind⟩ := Option.map_eq_some_iff.mp object
  refine ⟨0,0,0x1000,e,rfl,?_,?_,here,congrArg Prod.fst kind,.inl (congrArg Prod.snd kind)⟩
  · decide +kernel
  · decide +kernel

-- A newline is typed, and "ab" and a newline.
theorem uart_reads_lines_started :
    (∃ l : Line,(doRead 0 0x70001000 4).Ends (Machine.started (few 5)) l.value ((Machine.started (few 5)).stores 0x70001000 l.stored) ∧
      ReadsLine (fun _ => newline) 4 l) ∧
    ∃ l : Line,(doRead 0 0x70001000 4).Ends (Machine.started (few 5)) l.value ((Machine.started (few 5)).stores 0x70001000 l.stored) ∧
      ¬ ReadsLine (fun k => [0x61,0x62].getD k newline) 4 l := by
  obtain ⟨l,run,_,reads⟩ := @uart_reads_line_iff _ 0 started_terminal 0x70001000 4 (by decide) fun _ => newline
  obtain ⟨l',run',_,reads'⟩ := @uart_reads_line_iff _ 0 started_terminal 0x70001000 4 (by decide)
    fun k => [0x61,0x62].getD k newline
  exact ⟨⟨l,run,reads.mpr rfl⟩,l',run',fun wrong => absurd (reads'.mp wrong) (by decide)⟩

-- "a" and a newline are typed.
theorem line_lost : ¬ ∀ (m : Machine) (fd : Int) (out nchars : UInt32) (getc : Nat → UInt8),m.Terminal fd →
    0 < toInt nchars → ∃ l : Line,(doRead fd out nchars).Ends m l.value (m.stores out l.stored) ∧
      l = readline getc (toInt nchars).toNat ∧ ReadsLine getc (toInt nchars).toNat l := by
  intro all
  obtain ⟨_,_,rfl,reads⟩ := all _ 0 0x70001000 4 (fun k => if k = 0 then 0x61 else newline) started_terminal (by decide)
  have first := (readsLine_readline _ 3).mp reads
  cases first

end ArchiveOs.Kernel
