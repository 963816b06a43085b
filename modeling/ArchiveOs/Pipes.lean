import ArchiveOs.Rings

-- The pipes of the kernel (pipe.c).
namespace ArchiveOs.Kernel

abbrev pipeSize : Nat := 0x1000

instance : NeZero pipeSize := ⟨by decide⟩

-- pipe_t. Both positions are stored as remainders of PIPE_SIZE only.
structure Pipe extends Ring UInt8 pipeSize where
  readerPid : Int
  writerPid : Int

def pipeReset (pipe : Pipe) : Pipe where
  buffer := pipe.buffer
  reader := 0
  writer := 0
  full := false
  readerPid := -1
  writerPid := -1

def canRead (pipe : Pipe) : Bool := pipe.full || pipe.writer != pipe.reader

-- The loop of pipe_read, `turns` of which are left before i reaches nchars: the
-- bytes stored from out[i] on, and the last value of i.
def pipeReadLoop : (turns : Nat) → (pipe : Pipe) → (i : Int) → Pipe × List UInt8 × Int
  | 0,pipe,i => (pipe,[],i)
  | turns + 1,pipe,i =>
    if canRead pipe then
      let byte := pipe.buffer.get pipe.reader
      let (pipe,out,i) := pipeReadLoop turns {pipe with reader := pipe.reader + 1,full := false} (i + 1)
      (pipe,byte :: out,i)
    else (pipe,[],i)

-- `i` is what the local variable holds on entry.
def pipeRead (pipe : Pipe) (nchars i : Int) : Pipe × List UInt8 × Int :=
  pipeReadLoop (nchars - i).toNat pipe i

-- `src` is the memory at `in`.
def pipeWriteLoop (src : Int → UInt8) : (turns : Nat) → (pipe : Pipe) → (i : Int) → Pipe × Int
  | 0,pipe,i => (pipe,i)
  | turns + 1,pipe,i =>
    if pipe.full then (pipe,i)
    else
      let pipe := {pipe with
        buffer := pipe.buffer.set pipe.writer.val (src i) pipe.writer.isLt,writer := pipe.writer + 1}
      pipeWriteLoop src turns {pipe with full := decide (pipe.writer = pipe.reader)} (i + 1)

def pipeWrite (pipe : Pipe) (src : Int → UInt8) (nchars i : Int) : Pipe × Int :=
  pipeWriteLoop src (nchars - i).toNat pipe i

theorem canRead_iff (pipe : Pipe) : canRead pipe = true ↔ pipe.toRing.CanRead := by
  unfold canRead Ring.CanRead
  simp [bne_iff_ne]

theorem pipeReset_contents (pipe : Pipe) : (pipeReset pipe).toRing.contents = [] :=
  Ring.contents_empty pipe.buffer

theorem pipeReset_aligned (pipe : Pipe) : (pipeReset pipe).toRing.Aligned := fun full => nomatch full

theorem pipeReadLoop_takes (turns : Nat) (pipe : Pipe) (i : Int) (aligned : pipe.toRing.Aligned) :
    ∃ after,pipeReadLoop turns pipe i =
        (after,pipe.toRing.contents.take turns,i + ((min turns pipe.toRing.held : Nat) : Int)) ∧
      after.toRing.Aligned ∧ after.toRing.contents = pipe.toRing.contents.drop turns := by
  induction turns generalizing pipe i with
  | zero =>
      refine ⟨pipe,?_,aligned,rfl⟩
      simp [pipeReadLoop]
  | succ turns ih =>
      cases can : canRead pipe with
      | false =>
          have none := Ring.held_zero pipe.toRing fun can' => by
            rw [(canRead_iff pipe).mpr can'] at can; cases can
          have nothing : pipe.toRing.contents = [] :=
            List.length_eq_zero_iff.mp ((Ring.contents_length _).trans none)
          refine ⟨pipe,?_,aligned,?_⟩
          · unfold pipeReadLoop
            rw [can,nothing,none]
            simp
          · rw [nothing]; rfl
      | true =>
          have can' := (canRead_iff pipe).mp can
          have front := Ring.contents_pop aligned can'
          have held := Ring.held_pop aligned can'
          obtain ⟨after,run,aligned',rest⟩ := ih {pipe with reader := pipe.reader + 1,full := false} (i + 1)
            (Ring.aligned_pop pipe.toRing)
          refine ⟨after,?_,aligned',?_⟩
          · unfold pipeReadLoop
            rw [can,if_pos rfl,run,front,held,Nat.add_min_add_right]
            simp only [List.take_succ_cons,Int.natCast_add,Int.cast_ofNat_Int,Prod.mk.injEq,true_and]
            exact ⟨rfl,by rw [Int.add_assoc,Int.add_comm 1]; rfl⟩
          · rw [rest,front]; rfl

theorem pipeRead_takes {pipe : Pipe} (aligned : pipe.toRing.Aligned) (nchars : Int) :
    ∃ after,pipeRead pipe nchars 0 =
        (after,pipe.toRing.contents.take nchars.toNat,((min nchars.toNat pipe.toRing.held : Nat) : Int)) ∧
      after.toRing.Aligned ∧ after.toRing.contents = pipe.toRing.contents.drop nchars.toNat := by
  have run := pipeReadLoop_takes nchars.toNat pipe 0 aligned
  rw [Int.zero_add] at run
  unfold pipeRead
  rw [Int.sub_zero]
  exact run

-- The bytes of `src` from place i on.
def bytesFrom (src : Int → UInt8) : (i : Int) → Nat → List UInt8
  | _,0 => []
  | i,n + 1 => src i :: bytesFrom src (i + 1) n

-- A write appends the front of its data to the queue, as much of it as there is room for.
theorem pipeWriteLoop_puts (src : Int → UInt8) (turns : Nat) (pipe : Pipe) (i : Int)
    (aligned : pipe.toRing.Aligned) :
    ∃ after,pipeWriteLoop src turns pipe i = (after,i + ((min turns (pipeSize - pipe.toRing.held) : Nat) : Int)) ∧
      after.toRing.Aligned ∧ after.toRing.contents =
        pipe.toRing.contents ++ bytesFrom src i (min turns (pipeSize - pipe.toRing.held)) := by
  induction turns generalizing pipe i with
  | zero =>
      refine ⟨pipe,?_,aligned,?_⟩
      · simp [pipeWriteLoop]
      · rw [Nat.zero_min]
        exact (List.append_nil _).symm
  | succ turns ih =>
      cases full : pipe.full with
      | true =>
          rw [Ring.held_full full,Nat.sub_self,Nat.min_zero]
          refine ⟨pipe,?_,aligned,(List.append_nil _).symm⟩
          unfold pipeWriteLoop
          rw [full]
          simp
      | false =>
          have held := Ring.held_push full (src i)
          have back := Ring.contents_push full (src i)
          have bound := Ring.held_lt full
          obtain ⟨after,run,aligned',rest⟩ := ih {pipe with toRing := pipe.toRing.push (src i)} (i + 1)
            (Ring.aligned_push pipe.toRing (src i))
          change pipeWriteLoop src turns {pipe with toRing := pipe.toRing.push (src i)} (i + 1) =
            (after,i + 1 + ((min turns (pipeSize - (pipe.toRing.push (src i)).held) : Nat) : Int)) at run
          change after.toRing.contents = (pipe.toRing.push (src i)).contents ++
            bytesFrom src (i + 1) (min turns (pipeSize - (pipe.toRing.push (src i)).held)) at rest
          have room : min (turns + 1) (pipeSize - pipe.toRing.held) =
              min turns (pipeSize - (pipe.toRing.push (src i)).held) + 1 := by
            rw [held]
            omega
          refine ⟨after,?_,aligned',?_⟩
          · unfold pipeWriteLoop
            rw [full,if_neg (by decide),room,Int.natCast_add,Int.add_comm (((min _ _ : Nat) : Int)),← Int.add_assoc]
            exact run
          · rw [rest,back,room,List.append_assoc]
            rfl

theorem pipeWrite_puts {pipe : Pipe} (aligned : pipe.toRing.Aligned) (src : Int → UInt8) (nchars : Int) :
    ∃ after,pipeWrite pipe src nchars 0 = (after,((min nchars.toNat (pipeSize - pipe.toRing.held) : Nat) : Int)) ∧
      after.toRing.Aligned ∧ after.toRing.contents =
        pipe.toRing.contents ++ bytesFrom src 0 (min nchars.toNat (pipeSize - pipe.toRing.held)) := by
  have run := pipeWriteLoop_puts src nchars.toNat pipe 0 aligned
  rw [Int.zero_add] at run
  unfold pipeWrite
  rw [Int.sub_zero]
  exact run

-- Calls on one pipe, by whichever process.
inductive PipeCall where
  | read (nchars : Int)
  | write (src : Int → UInt8) (nchars : Int)

-- A pipe with the bytes its writes have accepted and its reads have delivered so far.
-- What a write accepts is the start of its data, up to the count that it returns.
structure Traffic where
  pipe : Pipe
  accepted : List UInt8
  delivered : List UInt8

def Traffic.fresh (pipe : Pipe) : Traffic := ⟨pipeReset pipe,[],[]⟩

def Traffic.call (t : Traffic) : PipeCall → Traffic × Int
  | .read nchars =>
    let (pipe,out,n) := pipeRead t.pipe nchars 0
    ({t with pipe := pipe,delivered := t.delivered ++ out},n)
  | .write src nchars =>
    let (pipe,n) := pipeWrite t.pipe src nchars 0
    ({t with pipe := pipe,accepted := t.accepted ++ bytesFrom src 0 n.toNat},n)

def Traffic.run (t : Traffic) : List PipeCall → Traffic
  | [] => t
  | call :: calls => (t.call call).1.run calls

-- The traffic is that of a queue which was empty at first.
structure Traffic.Queued (t : Traffic) : Prop where
  aligned : t.pipe.toRing.Aligned
  fifo : Passes [] t.accepted t.delivered t.pipe.toRing.contents

theorem Traffic.fresh_queued (pipe : Pipe) : (fresh pipe).Queued :=
  ⟨pipeReset_aligned pipe,(pipeReset_contents pipe).symm⟩

theorem Traffic.call_queued {t : Traffic} (queued : t.Queued) (call : PipeCall) : (t.call call).1.Queued := by
  cases call with
  | read nchars =>
      obtain ⟨after,run,aligned,rest⟩ := pipeRead_takes queued.aligned nchars
      unfold Traffic.call
      simp only [run]
      refine ⟨aligned,?_⟩
      have taken : Passes t.pipe.toRing.contents [] (t.pipe.toRing.contents.take nchars.toNat)
          after.toRing.contents := by
        unfold Passes
        rw [rest,List.take_append_drop,List.append_nil]
      have all := queued.fifo.trans taken
      rwa [List.append_nil] at all
  | write src nchars =>
      obtain ⟨after,run,aligned,rest⟩ := pipeWrite_puts queued.aligned src nchars
      unfold Traffic.call
      simp only [run,Int.toNat_natCast]
      refine ⟨aligned,?_⟩
      have put : Passes t.pipe.toRing.contents
          (bytesFrom src 0 (min nchars.toNat (pipeSize - t.pipe.toRing.held))) [] after.toRing.contents := rest.symm
      have all := queued.fifo.trans put
      rwa [List.append_nil] at all

theorem Traffic.run_queued {t : Traffic} (queued : t.Queued) (calls : List PipeCall) : (t.run calls).Queued := by
  induction calls generalizing t with
  | nil => exact queued
  | cons call calls ih => exact ih (call_queued queued call)

-- What the next call does to a pipe and to its traffic.
def Traffic.Serves (t : Traffic) : PipeCall → Prop
  | .read nchars => (t.call (.read nchars)).2 = min (max nchars 0) t.pipe.held ∧
      ((t.call (.read nchars)).1.delivered.length : Int) = t.delivered.length + min (max nchars 0) t.pipe.held
  | .write src nchars => (t.call (.write src nchars)).2 = min (max nchars 0) (pipeSize - t.pipe.held) ∧
      (t.call (.write src nchars)).1.accepted =
        t.accepted ++ bytesFrom src 0 (min (max nchars 0) (pipeSize - t.pipe.held)).toNat

theorem Traffic.call_serves {t : Traffic} (queued : t.Queued) (call : PipeCall) : t.Serves call := by
  have bound := Ring.held_le t.pipe.toRing
  cases call with
  | read nchars =>
      obtain ⟨after,run,_⟩ := pipeRead_takes queued.aligned nchars
      have count : ((min nchars.toNat t.pipe.toRing.held : Nat) : Int) = min (max nchars 0) t.pipe.held := by omega
      unfold Serves Traffic.call
      simp only [run]
      refine ⟨count,?_⟩
      rw [List.length_append,List.length_take,Ring.contents_length,Int.natCast_add,count]
  | write src nchars =>
      obtain ⟨after,run,_⟩ := pipeWrite_puts queued.aligned src nchars
      have count : ((min nchars.toNat (pipeSize - t.pipe.toRing.held) : Nat) : Int) =
          min (max nchars 0) (pipeSize - t.pipe.held) := by omega
      unfold Serves Traffic.call
      simp only [run]
      exact ⟨count,by rw [← count]⟩

-- Whatever the calls and their order: what comes out is what went in, in the same
-- order, nothing is lost on the way, and no call moves less or more than it can.
theorem pipe_lossless (pipe : Pipe) (calls : List PipeCall) :
    let t := (Traffic.fresh pipe).run calls
    t.delivered <+: t.accepted ∧ t.pipe.held ≤ pipeSize ∧ t.pipe.held + t.delivered.length = t.accepted.length ∧
      ∀ call,t.Serves call := by
  have queued := Traffic.run_queued (Traffic.fresh_queued pipe) calls
  refine ⟨queued.fifo.in_order,Ring.held_le _,?_,Traffic.call_serves queued⟩
  have balance := queued.fifo.balance
  rw [Ring.contents_length] at balance
  omega

end ArchiveOs.Kernel
