import ArchiveOs.Pipes

-- The messages of five bytes that a philosopher writes into its pipe and that the spawner
-- reads out of it. Neither looks at what it could not write.
namespace ArchiveOs.Kernel

abbrev Message := Vector UInt8 5

inductive PostCall where
  | write (m : Message)
  | read

-- A pipe, the messages written so far, the counts that the writes returned, and what the
-- reads with a count other than 0 gave.
structure Post where
  pipe : Pipe
  sent : List Message
  counts : List Int
  got : List (Int × List UInt8)

namespace Post

def fresh (pipe : Pipe) : Post := ⟨pipeReset pipe,[],[],[]⟩

def source (m : Message) (k : Int) : UInt8 := m.toList.getD k.toNat 0

def call (t : Post) : PostCall → Post
  | .write m =>
    let (pipe,n) := pipeWrite t.pipe (source m) 5 0
    {t with pipe := pipe,sent := t.sent ++ [m],counts := t.counts ++ [n]}
  | .read =>
    let (pipe,out,n) := pipeRead t.pipe 5 0
    {t with pipe := pipe,got := if n ≠ 0 then t.got ++ [(n,out)] else t.got}

def run (t : Post) : List PostCall → Post
  | [] => t
  | c :: calls => (t.call c).run calls

def packet (m : Message) : Int × List UInt8 := (5,m.toList)

-- What has been read are messages that have been written, in their order, and each
-- message has gone into the pipe as a whole or not at all.
structure Whole (t : Post) : Prop where
  delivered : ∃ ms : List Message,t.got = ms.map packet ∧ ms.Sublist t.sent
  counts : ∀ n ∈ t.counts,n = 0 ∨ n = 5

-- There is room for a message, or for none of it.
def Roomy (t : Post) : PostCall → Prop
  | .write _ => t.pipe.held + 5 ≤ pipeSize ∨ t.pipe.held = pipeSize
  | .read => True

def AllRoomy (t : Post) : List PostCall → Prop
  | [] => True
  | c :: calls => t.Roomy c ∧ (t.call c).AllRoomy calls

-- The messages that are in the pipe.
structure Packed (t : Post) (ms pending : List Message) : Prop where
  aligned : t.pipe.toRing.Aligned
  got : t.got = ms.map packet
  inside : t.pipe.toRing.contents = pending.flatMap Vector.toList
  order : (ms ++ pending).Sublist t.sent
  counts : ∀ n ∈ t.counts,n = 0 ∨ n = 5

section Step
variable {t : Post} {ms pending : List Message}

theorem length_bytesFrom (src : Int → UInt8) (i : Int) (n : Nat) : (bytesFrom src i n).length = n := by
  induction n generalizing i with
  | zero => rfl
  | succ n ih => exact congrArg (· + 1) (ih (i + 1))

theorem bytesFrom_getElem (src : Int → UInt8) (i : Int) (n k : Nat) (h : k < (bytesFrom src i n).length) :
    (bytesFrom src i n)[k] = src (i + k) := by
  induction n generalizing i k with
  | zero => exact absurd h (Nat.not_lt_zero k)
  | succ n ih =>
      cases k with
      | zero => exact congrArg src (Int.add_zero i).symm
      | succ k =>
          have rest := ih (i + 1) k (Nat.lt_of_succ_lt_succ h)
          have place : i + ((k + 1 : Nat) : Int) = i + 1 + k := by omega
          rw [place]
          exact rest

theorem bytesFrom_source (m : Message) : bytesFrom (source m) 0 5 = m.toList := by
  have size : m.toList.length = 5 := Vector.length_toList
  apply List.ext_getElem
  · rw [length_bytesFrom,size]
  · intro k h h'
    rw [bytesFrom_getElem,Int.zero_add]
    show m.toList.getD k 0 = m.toList[k]
    rw [List.getD_eq_getElem?_getD,List.getElem?_eq_getElem h']
    rfl

theorem fresh_packed (pipe : Pipe) : (fresh pipe).Packed [] [] :=
  ⟨pipeReset_aligned pipe,rfl,pipeReset_contents pipe,List.Sublist.refl _,fun _ member => nomatch member⟩

theorem Packed.whole (p : t.Packed ms pending) : t.Whole :=
  ⟨⟨ms,p.got,(List.sublist_append_left ms pending).trans p.order⟩,p.counts⟩

theorem Packed.write (p : t.Packed ms pending) (m : Message) (roomy : t.Roomy (.write m)) :
    ∃ pending',(t.call (.write m)).Packed ms pending' := by
  obtain ⟨after,run,aligned,rest⟩ := pipeWrite_puts p.aligned (source m) 5
  have five : (5 : Int).toNat = 5 := rfl
  rw [five] at run rest
  unfold call
  simp only [run]
  rcases roomy with room | full
  · have all : min 5 (pipeSize - t.pipe.toRing.held) = 5 := by omega
    rw [all] at rest ⊢
    rw [bytesFrom_source,p.inside] at rest
    refine ⟨pending ++ [m],aligned,p.got,?_,?_,?_⟩
    · rw [rest,List.flatMap_append,List.flatMap_singleton]
    · rw [← List.append_assoc]
      exact p.order.append (List.Sublist.refl _)
    · intro n member
      rcases List.mem_append.mp member with old | new
      · exact p.counts n old
      · exact .inr (List.mem_singleton.mp new)
  · have none : min 5 (pipeSize - t.pipe.toRing.held) = 0 := by omega
    rw [none] at rest ⊢
    refine ⟨pending,aligned,p.got,?_,p.order.trans (List.sublist_append_left _ _),?_⟩
    · rw [rest,p.inside]
      exact List.append_nil _
    · intro n member
      rcases List.mem_append.mp member with old | new
      · exact p.counts n old
      · exact .inl (List.mem_singleton.mp new)

theorem Packed.read (p : t.Packed ms pending) : ∃ ms' pending',(t.call .read).Packed ms' pending' := by
  obtain ⟨after,run,aligned,rest⟩ := pipeRead_takes p.aligned 5
  have five : (5 : Int).toNat = 5 := rfl
  rw [five] at run rest
  have length := Ring.contents_length t.pipe.toRing
  unfold call
  simp only [run]
  cases pending with
  | nil =>
      have empty : t.pipe.toRing.contents = [] := p.inside
      rw [empty] at length rest
      have none : min 5 t.pipe.toRing.held = 0 := by rw [← length]; rfl
      rw [none,if_neg (by decide)]
      exact ⟨ms,[],aligned,p.got,rest,p.order,p.counts⟩
  | cons m pending =>
      have front : t.pipe.toRing.contents = m.toList ++ pending.flatMap Vector.toList := p.inside
      have size : m.toList.length = 5 := Vector.length_toList
      have all : min 5 t.pipe.toRing.held = 5 := by
        rw [← length,front,List.length_append,size]
        omega
      have head : t.pipe.toRing.contents.take 5 = m.toList := by rw [front,List.take_left' size]
      rw [all,if_pos (by decide),head]
      refine ⟨ms ++ [m],pending,aligned,?_,?_,?_,p.counts⟩
      · rw [p.got,List.map_append]
        rfl
      · rw [rest,front,List.drop_left' size]
      · rw [List.append_assoc]
        exact p.order

theorem Packed.run (p : t.Packed ms pending) {calls : List PostCall} (roomy : t.AllRoomy calls) :
    ∃ ms' pending',(t.run calls).Packed ms' pending' := by
  induction calls generalizing t ms pending with
  | nil => exact ⟨ms,pending,p⟩
  | cons c calls ih =>
      cases c with
      | write m =>
          obtain ⟨pending',next⟩ := p.write m roomy.1
          exact ih next roomy.2
      | read =>
          obtain ⟨ms',pending',next⟩ := p.read
          exact ih next roomy.2

theorem call_counts (t : Post) (c : PostCall) : t.counts <+: (t.call c).counts := by
  cases c with
  | write m => exact List.prefix_append ..
  | read => exact List.prefix_refl _

theorem run_counts (t : Post) (calls : List PostCall) : t.counts <+: (t.run calls).counts := by
  induction calls generalizing t with
  | nil => exact List.prefix_refl _
  | cons c calls ih => exact (call_counts t c).trans (ih (t.call c))

theorem Packed.torn (p : t.Packed ms pending) {m : Message} (torn : ¬ t.Roomy (.write m)) :
    ∃ n ∈ (t.call (.write m)).counts,¬ (n = 0 ∨ n = 5) := by
  obtain ⟨after,run,_⟩ := pipeWrite_puts p.aligned (source m) 5
  have bound := Ring.held_le t.pipe.toRing
  unfold Roomy at torn
  rw [not_or] at torn
  unfold call
  simp only [run]
  refine ⟨_,List.mem_append_right _ (List.mem_singleton_self _),?_⟩
  have five : (5 : Int).toNat = 5 := rfl
  rw [five]
  omega

theorem Packed.allRoomy (p : t.Packed ms pending) {calls : List PostCall} (whole : (t.run calls).Whole) :
    t.AllRoomy calls := by
  induction calls generalizing t ms pending with
  | nil => trivial
  | cons c calls ih =>
      cases c with
      | write m =>
          by_cases roomy : t.Roomy (.write m)
          · obtain ⟨pending',next⟩ := p.write m roomy
            exact ⟨roomy,ih next whole⟩
          · obtain ⟨n,member,torn⟩ := p.torn roomy
            exact absurd (whole.counts n ((run_counts _ calls).subset member)) torn
      | read =>
          obtain ⟨ms',pending',next⟩ := p.read
          exact ⟨trivial,ih next whole⟩

end Step

-- The messages stay whole if and only if no write begins with room for a part of one.
theorem messages_whole_iff (pipe : Pipe) (calls : List PostCall) :
    ((fresh pipe).run calls).Whole ↔ (fresh pipe).AllRoomy calls := by
  constructor
  · exact (fresh_packed pipe).allRoomy
  · intro roomy
    obtain ⟨ms,pending,packed⟩ := (fresh_packed pipe).run roomy
    exact packed.whole

-- How much is in the pipe: 819 messages leave room for one byte, which takes the first
-- byte of the next one.
section Torn
variable {t : Post} {m : Message}

theorem run_append (t : Post) (first rest : List PostCall) : t.run (first ++ rest) = (t.run first).run rest := by
  induction first generalizing t with
  | nil => rfl
  | cons c first ih => exact ih (t.call c)

structure Holds (t : Post) (n : Nat) : Prop where
  aligned : t.pipe.toRing.Aligned
  held : t.pipe.toRing.held = n

theorem Holds.write {n : Nat} (h : t.Holds n) (m : Message) : (t.call (.write m)).Holds (min (n + 5) pipeSize) := by
  obtain ⟨after,run,aligned,rest⟩ := pipeWrite_puts h.aligned (source m) 5
  have length := congrArg List.length rest
  have bound := Ring.held_le t.pipe.toRing
  have five : (5 : Int).toNat = 5 := rfl
  rw [List.length_append,length_bytesFrom,Ring.contents_length,Ring.contents_length,h.held,five] at length
  rw [h.held] at bound
  unfold call
  simp only [run]
  exact ⟨aligned,by rw [length]; omega⟩

theorem Holds.read {n : Nat} (h : t.Holds n) : (t.call .read).Holds (n - 5) ∧
    (t.call .read).got = if min 5 n ≠ 0 then t.got ++ [(((min 5 n : Nat) : Int),t.pipe.toRing.contents.take 5)] else t.got := by
  obtain ⟨after,run,aligned,rest⟩ := pipeRead_takes h.aligned 5
  have length := congrArg List.length rest
  have five : (5 : Int).toNat = 5 := rfl
  rw [List.length_drop,Ring.contents_length,Ring.contents_length,h.held,five] at length
  unfold call
  simp only [run,h.held,five]
  refine ⟨⟨aligned,length⟩,?_⟩
  simp only [ne_eq,Int.natCast_eq_zero]

theorem Holds.writes {n : Nat} (h : t.Holds n) (m : Message) (k : Nat) :
    (t.run (List.replicate k (.write m))).Holds (min (n + 5 * k) pipeSize) := by
  induction k generalizing t n with
  | zero =>
      have bound := Ring.held_le t.pipe.toRing
      rw [h.held] at bound
      rwa [Nat.mul_zero,Nat.add_zero,Nat.min_eq_left bound]
  | succ k ih =>
      have all : min (min (n + 5) pipeSize + 5 * k) pipeSize = min (n + 5 * (k + 1)) pipeSize := by omega
      rw [← all]
      exact ih (h.write m)

theorem Holds.reads {n : Nat} (h : t.Holds n) (k : Nat) : (t.run (List.replicate k .read)).Holds (n - 5 * k) := by
  induction k generalizing t n with
  | zero => exact h
  | succ k ih =>
      have all : n - 5 - 5 * k = n - 5 * (k + 1) := by omega
      rw [← all]
      exact ih h.read.1

theorem messages_torn_after (pipe : Pipe) (m : Message) : ∃ out,
    (1,out) ∈ ((fresh pipe).run (List.replicate 820 (.write m) ++ (List.replicate 819 .read ++ [.read]))).got := by
  have empty : (fresh pipe).Holds 0 := by
    refine ⟨pipeReset_aligned pipe,?_⟩
    rw [← Ring.contents_length]
    exact congrArg List.length (pipeReset_contents pipe)
  have last := ((empty.writes m 820).reads 819).read.2
  have one : min 5 (min (0 + 5 * 820) pipeSize - 5 * 819) = 1 := by decide
  rw [one,if_pos (by decide)] at last
  have back : ∀ {l got : List (Int × List UInt8)} {r},l = got ++ [r] → r ∈ l := fun same => by simp [same]
  rw [run_append,run_append]
  exact ⟨_,back last⟩

end Torn

def blankPipe : Pipe := ⟨⟨Vector.replicate pipeSize 0,0,0,false⟩,-1,-1⟩
def thinks : Message := #v[0x20,0xE2,0x98,0xB9,0x20]

theorem messages_torn : ¬ ((fresh blankPipe).run
    (List.replicate 820 (.write thinks) ++ (List.replicate 819 .read ++ [.read]))).Whole := by
  intro whole
  obtain ⟨ms,all,_⟩ := whole.delivered
  obtain ⟨out,member⟩ := messages_torn_after blankPipe thinks
  rw [all] at member
  obtain ⟨m,_,packet⟩ := List.mem_map.mp member
  cases congrArg Prod.fst packet

end Post
end ArchiveOs.Kernel
