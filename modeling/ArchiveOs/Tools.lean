import ArchiveOs.Denials

-- tools.c: cat and wc, over the results that read gives them one after the other. What
-- they call is listed; a program that has not come to exit has no list (none).
namespace ArchiveOs.Tools
open Fs2

inductive Call where
  | printn (nchars : Int)
  | write (n : Int)
  | count (n : Int)
  | close (fd : Int)
  | printHex (words total : Int)
  | exit (status : Int)
  deriving DecidableEq

-- The count that a call passes on, or loops over.
def Call.counts : Call → Int
  | .printn n => n
  | .write n => n
  | .count n => n
  | _ => 0

-- Both programs are a loop that ends with the first result that is 0. `turns` bounds it.
def readLoop {σ : Type} (reads : Nat → Int) (body : σ → Nat → σ × Call) (last : σ → List Call) :
    (turns k : Nat) → σ → Option (List Call)
  | 0,_,_ => none
  | turns + 1,k,s =>
    if reads k ≠ 0 then
      let (s,call) := body s k
      (readLoop reads body last turns (k + 1) s).map (call :: ·)
    else some (last s)

def catBody (reads : Nat → Int) (_ : Unit) (k : Nat) : Unit × Call := ((),.write (reads k))
def catEnd (f : Int) (_ : Unit) : List Call := [.close f,.exit 0]

def cat (f : Int) (reads : Nat → Int) (turns : Nat) : Option (List Call) :=
  if f = -1 then some [.printn 25,.exit 1] else readLoop reads (catBody reads) (catEnd f) turns 0 ()

-- count[0] and count[1]; the source overflows them from 2147483648 characters on.
structure Counts where
  words : Int
  total : Int

def blanks (n : Int) (buf : Nat → UInt8) : Nat := (List.range n.toNat).countP fun i => buf i = 0x20 ∨ buf i = 0x0A

def wcBody (reads : Nat → Int) (bufs : Nat → Nat → UInt8) (c : Counts) (k : Nat) : Counts × Call :=
  (⟨c.words + blanks (reads k) (bufs k),c.total + reads k⟩,.count (reads k))

def wcEnd (f : Int) (c : Counts) : List Call := [.close f,.printHex c.words c.total,.exit 0]

def wc (f : Int) (reads : Nat → Int) (bufs : Nat → Nat → UInt8) (turns : Nat) : Option (List Call) :=
  if f = -1 then some [.exit 1] else readLoop reads (wcBody reads bufs) (wcEnd f) turns 0 ⟨0,0⟩

-- What a read of up to 1024 bytes may give on a file of `size` bytes.
def Result (size cursor : Nat) (n : Int) : Prop :=
  n = -1 ∨ (cursor < size ∧ 0 < n ∧ n ≤ 1024 ∧ cursor + n ≤ size) ∨ (size ≤ cursor ∧ n = 0)

-- The cursor after k reads: a failed one does not move it.
def cursorAt (reads : Nat → Int) : Nat → Nat
  | 0 => 0
  | k + 1 => cursorAt reads k + (reads k).toNat

-- The results on a file that others may write to, cut or remove in between. Its size is a
-- 32-bit number, and once it is gone it stays so.
structure Results (reads : Nat → Int) : Prop where
  result : ∃ size : Nat → Nat,∀ k,size k < 4294967296 ∧ Result (size k) (cursorAt reads k) (reads k)
  gone : ∀ k,reads k = -1 → reads (k + 1) = -1

-- The program comes to exit, and no count on the way is negative.
def Finishes (program : Nat → Option (List Call)) : Prop :=
  ∃ turns calls,program turns = some calls ∧ ∀ c ∈ calls,0 ≤ c.counts

-- A read fails before one has come to the end of the file.
def Fails (reads : Nat → Int) : Prop := ∃ k,reads k = -1 ∧ ∀ j < k,reads j ≠ 0

section Loop
variable {σ : Type} {reads : Nat → Int} {body : σ → Nat → σ × Call} {last : σ → List Call}

theorem readLoop_ends (counts : ∀ s k,(body s k).2.counts = reads k) (fine : ∀ s,∀ c ∈ last s,0 ≤ c.counts) {m : Nat}
    (zero : reads m = 0) (n k : Nat) (here : k + n = m) (before : ∀ j,k ≤ j → j < m → 0 < reads j) (s : σ) :
    ∃ calls,readLoop reads body last (n + 1) k s = some calls ∧ ∀ c ∈ calls,0 ≤ c.counts := by
  induction n generalizing k s with
  | zero =>
      rw [Nat.add_zero] at here
      subst here
      exact ⟨last s,if_neg (not_not.mpr zero),fine s⟩
  | succ n ih =>
      have positive := before k (le_refl k) (by omega)
      obtain ⟨calls,run,nonneg⟩ := ih (k + 1) (by omega) (fun j late early => before j (by omega) early) (body s k).1
      refine ⟨(body s k).2 :: calls,?_,?_⟩
      · rw [readLoop,if_pos (by omega)]
        dsimp only
        rw [run]
        rfl
      · intro c member
        rcases List.mem_cons.mp member with rfl | later
        · rw [counts]
          omega
        · exact nonneg c later

theorem readLoop_counts (counts : ∀ s k,(body s k).2.counts = reads k) {turns k : Nat} {s : σ} {calls : List Call}
    (run : readLoop reads body last turns k s = some calls) (nonneg : ∀ c ∈ calls,0 ≤ c.counts) :
    ∃ m,k ≤ m ∧ reads m = 0 ∧ ∀ j,k ≤ j → j < m → 0 ≤ reads j := by
  induction turns generalizing k s calls with
  | zero => cases run
  | succ turns ih =>
      unfold readLoop at run
      by_cases more : reads k ≠ 0
      · rw [if_pos more] at run
        obtain ⟨rest,run',rfl⟩ := Option.map_eq_some_iff.mp run
        have first := nonneg _ List.mem_cons_self
        rw [counts] at first
        obtain ⟨m,late,zero,before⟩ := ih run' fun c member => nonneg c (List.mem_cons_of_mem _ member)
        refine ⟨m,by omega,zero,fun j from_k early => ?_⟩
        rcases Nat.eq_or_lt_of_le from_k with rfl | past
        · exact first
        · exact before j past early
      · exact ⟨k,le_refl k,not_not.mp more,fun j late early => absurd early (by omega)⟩

end Loop

section Results
variable {reads : Nat → Int}

-- The cursor moves with every read that gives something, and it stays in the file.
theorem cursor_moves (n : Nat) (all : ∀ j < n,0 < reads j) : n ≤ cursorAt reads n := by
  induction n with
  | zero => exact Nat.zero_le _
  | succ n ih =>
      have before := ih fun j early => all j (by omega)
      have step := all n (Nat.lt_succ_self n)
      unfold cursorAt
      omega

theorem Results.stops (results : Results reads) : ∃ k,¬ 0 < reads k := by
  obtain ⟨size,each⟩ := results.result
  by_contra never
  have never : ∀ k,0 < reads k := fun k => by_contra fun stop => never ⟨k,stop⟩
  have moved := cursor_moves 4294967296 fun j _ => never j
  obtain ⟨small,gave⟩ := each 4294967296
  have positive := never 4294967296
  rcases gave with bad | ⟨inside,_⟩ | ⟨_,none⟩ <;> omega

theorem Results.kinds (results : Results reads) (k : Nat) : reads k = -1 ∨ 0 ≤ reads k := by
  obtain ⟨size,each⟩ := results.result
  rcases (each k).2 with bad | ⟨_,positive,_⟩ | ⟨_,none⟩
  · exact .inl bad
  · exact .inr (le_of_lt positive)
  · exact .inr (le_of_eq none.symm)

theorem loop_finishes_iff (results : Results reads) {σ : Type} {body : σ → Nat → σ × Call} {last : σ → List Call} (s : σ)
    (counts : ∀ s k,(body s k).2.counts = reads k) (fine : ∀ s,∀ c ∈ last s,0 ≤ c.counts) :
    Finishes (fun turns => readLoop reads body last turns 0 s) ↔ ¬ Fails reads := by
  constructor
  · rintro ⟨turns,calls,run,nonneg⟩ ⟨k,bad,going⟩
    obtain ⟨m,_,zero,before⟩ := readLoop_counts counts run nonneg
    rcases Nat.lt_or_ge k m with early | late
    · have wrong := before k (Nat.zero_le k) early
      omega
    · rcases Nat.eq_or_lt_of_le late with rfl | past
      · omega
      · exact going m past zero
  · intro never
    classical
    have ends := Nat.find_spec results.stops
    have before : ∀ j < Nat.find results.stops,0 < reads j := fun j early => not_not.mp (Nat.find_min results.stops early)
    generalize Nat.find results.stops = m at ends before
    have zero : reads m = 0 := by
      rcases results.kinds m with bad | natural
      · exact absurd ⟨m,bad,fun j early => by have := before j early; omega⟩ never
      · omega
    obtain ⟨calls,run,nonneg⟩ := readLoop_ends counts fine zero m 0 (Nat.zero_add m) (fun j _ early => before j early) s
    exact ⟨m + 1,calls,run,nonneg⟩

-- cat and wc finish if and only if no read fails before the end of the file.
theorem tools_finish_iff (results : Results reads) (f : Int) (bufs : Nat → Nat → UInt8) :
    Finishes (cat f reads) ∧ Finishes (wc f reads bufs) ↔ f = -1 ∨ ¬ Fails reads := by
  by_cases closed : f = -1
  · have given : ∀ c ∈ [Call.printn 25,.exit 1],0 ≤ c.counts := by simp [Call.counts]
    have quiet : ∀ c ∈ [Call.exit 1],0 ≤ c.counts := by simp [Call.counts]
    exact ⟨fun _ => .inl closed,fun _ => ⟨⟨0,_,if_pos closed,given⟩,⟨0,_,if_pos closed,quiet⟩⟩⟩
  · have cats : cat f reads = fun turns => readLoop reads (catBody reads) (catEnd f) turns 0 () := by
      funext turns
      exact if_neg closed
    have wcs : wc f reads bufs = fun turns => readLoop reads (wcBody reads bufs) (wcEnd f) turns 0 ⟨0,0⟩ := by
      funext turns
      exact if_neg closed
    rw [cats,wcs,loop_finishes_iff results () (fun _ _ => rfl) (by simp [catEnd,Call.counts]),
      loop_finishes_iff results (⟨0,0⟩ : Counts) (fun _ _ => rfl) (by simp [wcEnd,Call.counts]),and_self]
    exact ⟨.inr,fun either => either.resolve_left closed⟩

end Results

-- Five bytes and then the end, and a file that is gone.
theorem tools_finish_five : Finishes (cat 4 fun k => if k = 0 then 5 else 0) := by
  have results : Results fun k => if k = 0 then 5 else 0 := by
    refine ⟨⟨fun _ => 5,fun k => ⟨(by decide : 5 < 4294967296),?_⟩⟩,fun k bad => ?_⟩
    · cases k with
      | zero => exact .inr (.inl (by decide))
      | succ k =>
          have moved : 5 ≤ cursorAt (fun k => if k = 0 then 5 else 0) (k + 1) := by
            induction k with
            | zero => decide
            | succ k ih => exact Nat.le_trans ih (Nat.le_add_right ..)
          exact .inr (.inr ⟨moved,rfl⟩)
    · split at bad <;> cases bad
  refine ((tools_finish_iff results 4 fun _ _ => 0).mpr (.inr ?_)).1
  rintro ⟨k,bad,_⟩
  dsimp only at bad
  split at bad <;> cases bad

theorem tools_never_finish : Results (fun _ => -1) ∧ ¬ Finishes (cat 4 fun _ => -1) := by
  have results : Results fun _ => -1 := ⟨⟨fun _ => 0,fun _ => ⟨(by decide : 0 < 4294967296),.inl rfl⟩⟩,fun _ _ => rfl⟩
  refine ⟨results,?_⟩
  have loop := loop_finishes_iff results () (fun _ _ => rfl : ∀ s k,(catBody (fun _ => -1) s k).2.counts = -1)
    (by simp [catEnd,Call.counts] : ∀ s,∀ c ∈ catEnd 4 s,0 ≤ c.counts)
  have cats : cat 4 (fun _ => -1) = fun turns => readLoop (fun _ => -1) (catBody fun _ => -1) (catEnd 4) turns 0 () := rfl
  rw [cats,loop,not_not]
  exact ⟨0,rfl,fun j early => absurd early (Nat.not_lt_zero j)⟩

end ArchiveOs.Tools
