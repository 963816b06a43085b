import ArchiveOs.Semaphores
import Mathlib.Data.Fintype.Lattice
import Mathlib.Data.Fintype.EquivFin
import Mathlib.Order.Fin.Basic

-- The dining philosophers (philosophers.c), for any number of them, on semaphores.
namespace ArchiveOs.Philosophers

section Forks
variable {N : Nat} [NeZero N]

def rightFork (leftFork : Fin N) : Fin N := if leftFork.val = N - 1 then 0 else leftFork + 1

def leftFirst (leftFork : Fin N) : Bool := leftFork < rightFork leftFork

-- FIRST_FORK and SECOND_FORK.
def firstFork (leftFork : Fin N) : Fin N := if leftFirst leftFork then leftFork else rightFork leftFork
def secondFork (leftFork : Fin N) : Fin N := if leftFirst leftFork then rightFork leftFork else leftFork

theorem rightFork_ne (two : 2 ≤ N) (i : Fin N) : rightFork i ≠ i := by
  unfold rightFork
  have bound := i.isLt
  split
  · rename_i last
    intro same
    have zero := congrArg Fin.val same
    rw [Fin.val_zero] at zero
    omega
  · rename_i inner
    intro same
    have value := congrArg Fin.val same
    rcases Cycle.step_cases i with ⟨last,_⟩ | ⟨_,step⟩ <;> omega

theorem first_lt_second (two : 2 ≤ N) (i : Fin N) : firstFork i < secondFork i := by
  unfold firstFork secondFork
  cases order : leftFirst i with
  | true =>
      rw [if_pos rfl,if_pos rfl]
      exact of_decide_eq_true order
  | false =>
      rw [if_neg Bool.false_ne_true,if_neg Bool.false_ne_true]
      have not := of_decide_eq_false order
      exact lt_of_le_of_ne (not_lt.mp not) (rightFork_ne two i)

theorem both_forks (i : Fin N) : firstFork i = i ∧ secondFork i = rightFork i ∨
    firstFork i = rightFork i ∧ secondFork i = i := by
  unfold firstFork secondFork
  cases leftFirst i
  · exact .inr ⟨rfl,rfl⟩
  · exact .inl ⟨rfl,rfl⟩

end Forks

-- Where a philosopher stands in its loop: the semaphore calls that it has made.
inductive Phase where
  | hungry | reaching | eating | putting
  deriving DecidableEq, Repr

def Phase.next : Phase → Phase
  | .hungry => .reaching
  | .reaching => .eating
  | .eating => .putting
  | .putting => .hungry

-- The places of the philosophers among n processes, and of their forks among k
-- semaphores.
structure Seating (N n k : Nat) where
  seat : Fin N → Fin n
  fork : Fin N → Fin k
  seats : Function.Injective seat
  forks : Function.Injective fork

section Holding
variable {N : Nat} [NeZero N]

-- The forks in the hands of a philosopher whose last call has returned, or not.
def Phase.holds (p : Phase) (returned : Bool) (i f : Fin N) : Prop :=
  match p with
  | .hungry => False
  | .reaching => f = firstFork i ∧ returned = true
  | .eating => f = firstFork i ∨ f = secondFork i ∧ returned = true
  | .putting => f = secondFork i

end Holding

section Table
variable {N n k : Nat} [NeZero N] [NeZero n] {t : Seating N n k} {v : Sems n k} {pc : Fin N → Phase}

-- The next semaphore call of a philosopher.
def Seating.act (t : Seating N n k) (v : Sems n k) (i : Fin N) : Phase → Sems n k
  | .hungry => v.wait (t.seat i) (t.fork (firstFork i)) 1
  | .reaching => v.wait (t.seat i) (t.fork (secondFork i)) 1
  | .eating => v.post (t.seat i) (t.fork (firstFork i)) 1
  | .putting => v.post (t.seat i) (t.fork (secondFork i)) 1

-- Every order of turns. A waiting philosopher makes no call; the other processes leave
-- the forks alone.
inductive Dining (t : Seating N n k) : Sems n k → (Fin N → Phase) → Prop where
  | start {v : Sems n k} : (∀ f,v.value (t.fork f) = 1) → (∀ i,v.asks (t.seat i) = none) →
      (∀ j f x,v.asks j ≠ some (t.fork f,x)) → Dining t v fun _ => .hungry
  | turn {v : Sems n k} {pc : Fin N → Phase} (i : Fin N) : Dining t v pc → v.asks (t.seat i) = none →
      Dining t (t.act v i (pc i)) (Function.update pc i (pc i).next)
  | waits {v : Sems n k} {pc : Fin N → Phase} (j : Fin n) (s : Fin k) (x : UInt32) : Dining t v pc →
      (∀ i,j ≠ t.seat i) → (∀ f,s ≠ t.fork f) → Dining t (v.wait j s x) pc
  | posts {v : Sems n k} {pc : Fin N → Phase} (j : Fin n) (s : Fin k) (x : UInt32) : Dining t v pc →
      (∀ f,s ≠ t.fork f) → Dining t (v.post j s x) pc

def Holds (t : Seating N n k) (v : Sems n k) (pc : Fin N → Phase) (i f : Fin N) : Prop :=
  (pc i).holds (v.asks (t.seat i)).isNone i f

-- The semaphore of a fork says whether it lies on the table; otherwise one philosopher
-- has it. Who waits for a fork waits for one that is not there.
structure Laid (t : Seating N n k) (v : Sems n k) (pc : Fin N → Phase) : Prop where
  asks : ∀ i s x,v.asks (t.seat i) = some (s,x) → x = 1 ∧
    (pc i = .reaching ∧ s = t.fork (firstFork i) ∨ pc i = .eating ∧ s = t.fork (secondFork i))
  others : ∀ j,(∀ i,j ≠ t.seat i) → ∀ f x,v.asks j ≠ some (t.fork f,x)
  units : ∀ f,v.value (t.fork f) = 1 ∧ (∀ i,¬ Holds t v pc i f) ∨
    v.value (t.fork f) = 0 ∧ ∃ i,∀ j,Holds t v pc j f ↔ j = i
  short : ∀ i f x,v.asks (t.seat i) = some (t.fork f,x) → v.value (t.fork f) = 0

omit [NeZero n] in
theorem Laid.start (ones : ∀ f,v.value (t.fork f) = 1) (seated : ∀ i,v.asks (t.seat i) = none)
    (others : ∀ j f x,v.asks j ≠ some (t.fork f,x)) : Laid t v fun _ => .hungry := by
  refine ⟨fun i s x asks => ?_,fun j _ => others j,fun f => .inl ⟨ones f,fun _ holds => holds⟩,fun i f x asks => ?_⟩
  · rw [seated i] at asks
    cases asks
  · exact (others _ f x asks).elim

omit [NeZero n] in
theorem Laid.wait (laid : Laid t v pc) {i g : Fin N} {p' : Phase}
    (calls : p' = .reaching ∧ g = firstFork i ∨ p' = .eating ∧ g = secondFork i)
    (gets : ∀ f,p'.holds true i f ↔ Holds t v pc i f ∨ f = g) (keeps : ∀ f,p'.holds false i f ↔ Holds t v pc i f)
    (without : ¬ Holds t v pc i g) (free : v.asks (t.seat i) = none) :
    Laid t (v.wait (t.seat i) (t.fork g) 1) (Function.update pc i p') := by
  have away : ∀ {j},j ≠ i → t.seat j ≠ t.seat i := fun other same => other (t.seats same)
  have elsewhere : ∀ {j f},j ≠ i →
      (Holds t (v.wait (t.seat i) (t.fork g) 1) (Function.update pc i p') j f ↔ Holds t v pc j f) := by
    intro j f other
    unfold Holds
    rw [Function.update_of_ne other,Sems.wait_asks (away other)]
  have others : ∀ j,(∀ i,j ≠ t.seat i) → ∀ f x,(v.wait (t.seat i) (t.fork g) 1).asks j ≠ some (t.fork f,x) := by
    intro j strange
    rw [Sems.wait_asks (strange i)]
    exact laid.others j strange
  rcases laid.units g with ⟨there,nobody⟩ | ⟨gone,holder,holds⟩
  · -- The fork is there, and philosopher i takes it.
    have granted : v.wait (t.seat i) (t.fork g) 1 =
        {v with value := Function.update v.value (t.fork g) (v.value (t.fork g) - 1)} :=
      if_pos (by rw [there]; exact UInt32.le_refl 1)
    have mine : ∀ f,Holds t (v.wait (t.seat i) (t.fork g) 1) (Function.update pc i p') i f ↔
        Holds t v pc i f ∨ f = g := by
      intro f
      rw [← gets f]
      unfold Holds
      rw [Function.update_self,granted,free]
      rfl
    have zero : (v.wait (t.seat i) (t.fork g) 1).value (t.fork g) = 0 := by
      rw [granted,there]
      exact Function.update_self ..
    refine ⟨fun j s x asks => ?_,others,fun f => ?_,fun j f x asks => ?_⟩
    · rw [granted] at asks
      by_cases here : j = i
      · rw [here,free] at asks
        cases asks
      · rw [Function.update_of_ne here]
        exact laid.asks j s x asks
    · by_cases same : f = g
      · subst same
        refine .inr ⟨zero,i,fun j => ?_⟩
        by_cases here : j = i
        · rw [here,mine]
          exact ⟨fun _ => rfl,fun _ => .inr rfl⟩
        · rw [elsewhere here]
          exact ⟨fun held => absurd held (nobody j),fun wrong => absurd wrong here⟩
      · have value := Sems.wait_value (v := v) (i := t.seat i) (x := 1) fun equal => same (t.forks equal)
        have holders : ∀ j,Holds t (v.wait (t.seat i) (t.fork g) 1) (Function.update pc i p') j f ↔ Holds t v pc j f := by
          intro j
          by_cases here : j = i
          · rw [here,mine]
            exact or_iff_left same
          · exact elsewhere here
        rw [value]
        simp only [holders]
        exact laid.units f
    · rw [granted] at asks
      by_cases same : f = g
      · rw [same]
        exact zero
      · rw [Sems.wait_value fun equal => same (t.forks equal)]
        exact laid.short j f x asks
  · -- The fork is gone, and philosopher i waits for it.
    have blocked : v.wait (t.seat i) (t.fork g) 1 =
        {v with asks := Function.update v.asks (t.seat i) (some (t.fork g,1))} :=
      if_neg (by rw [gone]; decide)
    have mine : ∀ f,Holds t (v.wait (t.seat i) (t.fork g) 1) (Function.update pc i p') i f ↔ Holds t v pc i f := by
      intro f
      rw [← keeps f]
      unfold Holds
      rw [Function.update_self,blocked]
      dsimp only
      rw [Function.update_self]
      rfl
    have holders : ∀ j f,Holds t (v.wait (t.seat i) (t.fork g) 1) (Function.update pc i p') j f ↔ Holds t v pc j f := by
      intro j f
      by_cases here : j = i
      · rw [here,mine]
      · exact elsewhere here
    have value : (v.wait (t.seat i) (t.fork g) 1).value = v.value := by
      rw [blocked]
    refine ⟨fun j s x asks => ?_,others,fun f => ?_,fun j f x asks => ?_⟩
    · by_cases here : j = i
      · rw [here,blocked] at asks
        dsimp only at asks
        rw [Function.update_self] at asks
        cases asks
        rw [here,Function.update_self]
        refine ⟨rfl,?_⟩
        rcases calls with ⟨phase,fork⟩ | ⟨phase,fork⟩
        · exact .inl ⟨phase,congrArg t.fork fork⟩
        · exact .inr ⟨phase,congrArg t.fork fork⟩
      · rw [Sems.wait_asks (away here)] at asks
        rw [Function.update_of_ne here]
        exact laid.asks j s x asks
    · rw [value]
      simp only [holders]
      exact laid.units f
    · rw [value]
      by_cases here : j = i
      · rw [here,blocked] at asks
        dsimp only at asks
        rw [Function.update_self] at asks
        have same : t.fork g = t.fork f := congrArg Prod.fst (Option.some.inj asks)
        rw [← same]
        exact gone
      · rw [Sems.wait_asks (away here)] at asks
        exact laid.short j f x asks

omit [NeZero n] in
theorem Laid.gets (laid : Laid t v pc) {i g : Fin N} {x : UInt32} (asks : v.asks (t.seat i) = some (t.fork g,x))
    (f : Fin N) : (pc i).holds true i f ↔ Holds t v pc i f ∨ f = g := by
  have waits : (v.asks (t.seat i)).isNone = false := by
    rw [asks]
    rfl
  unfold Holds
  rw [waits]
  rcases (laid.asks i _ x asks).2 with ⟨phase,fork⟩ | ⟨phase,fork⟩
  · rw [phase,t.forks fork]
    unfold Phase.holds
    simp
  · rw [phase,t.forks fork]
    unfold Phase.holds
    simp

theorem Laid.post (laid : Laid t v pc) {i g : Fin N} {p' : Phase}
    (puts : ∀ f,p'.holds true i f ↔ Holds t v pc i f ∧ f ≠ g) (has : Holds t v pc i g)
    (free : v.asks (t.seat i) = none) :
    Laid t (v.post (t.seat i) (t.fork g) 1) (Function.update pc i p') := by
  have away : ∀ {j},j ≠ i → t.seat j ≠ t.seat i := fun other same => other (t.seats same)
  have alone : ∀ j,Holds t v pc j g → j = i := by
    intro j held
    rcases laid.units g with ⟨_,nobody⟩ | ⟨_,holder,holds⟩
    · exact absurd held (nobody j)
    · exact ((holds j).mp held).trans ((holds i).mp has).symm
  have gone : v.value (t.fork g) = 0 := by
    rcases laid.units g with ⟨_,nobody⟩ | ⟨zero,_⟩
    · exact absurd has (nobody i)
    · exact zero
  generalize after : v.post (t.seat i) (t.fork g) 1 = w
  have value : ∀ {f},f ≠ g → w.value (t.fork f) = v.value (t.fork f) := by
    intro f other
    rw [← after]
    exact Sems.post_value fun equal => other (t.forks equal)
  have asks : ∀ j,w.asks j = v.asks j ∨ w.asks j = none ∧ ∃ y,v.asks j = some (t.fork g,y) := by
    intro j
    rw [← after]
    exact Sems.post_asks
  have still : ∀ {j s x},w.asks j = some (s,x) → v.asks j = some (s,x) := by
    intro j s x asked
    rcases asks j with same | ⟨none,_⟩
    · exact same.symm.trans asked
    · rw [none] at asked
      cases asked
  have quiet : w.asks (t.seat i) = none := by
    rcases asks (t.seat i) with same | ⟨none,_⟩
    · exact same.trans free
    · exact none
  have mine : ∀ f,Holds t w (Function.update pc i p') i f ↔ Holds t v pc i f ∧ f ≠ g := by
    intro f
    rw [← puts f]
    unfold Holds
    rw [Function.update_self,quiet]
    rfl
  have paid := v.post_paid (t.seat i) (t.fork g) 1
  rw [after] at paid
  refine ⟨fun j s x asked => ?_,fun j strange f x asked => laid.others j strange f x (still asked),fun f => ?_,
    fun j f x asked => ?_⟩
  · have other : j ≠ i := by
      rintro rfl
      rw [quiet] at asked
      cases asked
    rw [Function.update_of_ne other]
    exact laid.asks j s x (still asked)
  · have elsewhere : ∀ {j},j ≠ i → w.asks (t.seat j) = v.asks (t.seat j) →
        (Holds t w (Function.update pc i p') j f ↔ Holds t v pc j f) := by
      intro j other same
      unfold Holds
      rw [Function.update_of_ne other,same]
    cases paid with
    | waiter l y distinct waited less =>
        -- The waiter is a philosopher, who has the fork from now on.
        obtain ⟨j,seated⟩ : ∃ j,l = t.seat j := by
          by_contra strange
          exact laid.others l (fun j same => strange ⟨j,same⟩) g y waited
        subst seated
        have other : j ≠ i := by
          rintro rfl
          exact distinct rfl
        have given : ∀ f,Holds t ⟨Function.update v.value (t.fork g) (v.value (t.fork g) + (1 - y)),
            Function.update v.asks (t.seat j) none⟩ (Function.update pc i p') j f ↔ Holds t v pc j f ∨ f = g := by
          intro f
          rw [← laid.gets waited f]
          unfold Holds
          dsimp only
          rw [Function.update_of_ne other,Function.update_self]
          rfl
        have rest : ∀ {l},l ≠ i → l ≠ j → (Holds t ⟨Function.update v.value (t.fork g) (v.value (t.fork g) + (1 - y)),
            Function.update v.asks (t.seat j) none⟩ (Function.update pc i p') l f ↔ Holds t v pc l f) := by
          intro l one two
          exact elsewhere one (Function.update_of_ne (fun same => two (t.seats same)) ..)
        by_cases same : f = g
        · subst same
          have unit : y = 1 := (laid.asks j _ y waited).1
          refine .inr ⟨?_,j,fun l => ?_⟩
          · dsimp only
            rw [Function.update_self,gone,unit]
            rfl
          · by_cases here : l = i
            · rw [here,mine]
              exact ⟨fun wrong => absurd rfl wrong.2,fun wrong => absurd wrong.symm other⟩
            · by_cases there : l = j
              · rw [there,given]
                exact ⟨fun _ => rfl,fun _ => .inr rfl⟩
              · rw [rest here there]
                exact ⟨fun held => absurd (alone l held) here,fun wrong => absurd wrong there⟩
        · have holders : ∀ l,Holds t ⟨Function.update v.value (t.fork g) (v.value (t.fork g) + (1 - y)),
              Function.update v.asks (t.seat j) none⟩ (Function.update pc i p') l f ↔ Holds t v pc l f := by
            intro l
            by_cases here : l = i
            · rw [here,mine]
              exact and_iff_left same
            · by_cases there : l = j
              · rw [there,given]
                exact or_iff_left same
              · exact rest here there
          rw [value same]
          simp only [holders]
          exact laid.units f
    | kept nobody =>
        by_cases same : f = g
        · subst same
          refine .inl ⟨?_,fun l held => ?_⟩
          · dsimp only
            rw [Function.update_self,gone]
            rfl
          · by_cases here : l = i
            · rw [here,mine] at held
              exact held.2 rfl
            · rw [elsewhere here rfl] at held
              exact here (alone l held)
        · have holders : ∀ l,Holds t {v with value := Function.update v.value (t.fork g) (v.value (t.fork g) + 1)}
              (Function.update pc i p') l f ↔ Holds t v pc l f := by
            intro l
            by_cases here : l = i
            · rw [here,mine]
              exact and_iff_left same
            · exact elsewhere here rfl
          rw [value same]
          simp only [holders]
          exact laid.units f
  · have other : t.seat j ≠ t.seat i := by
      intro same
      rw [same,quiet] at asked
      cases asked
    by_cases same : f = g
    · subst same
      cases paid with
      | waiter l y _ waited _ =>
          obtain ⟨j',seated⟩ : ∃ j,l = t.seat j := by
            by_contra strange
            exact laid.others l (fun j same => strange ⟨j,same⟩) f y waited
          subst seated
          have unit : y = 1 := (laid.asks j' _ y waited).1
          dsimp only
          rw [Function.update_self,gone,unit]
          rfl
      | kept nobody =>
          have unit := (laid.asks j _ x asked).1
          refine absurd ?_ (nobody (t.seat j) x other asked)
          rw [unit]
          exact UInt32.le_refl 1
    · rw [value same]
      exact laid.short j f x (still asked)

omit [NeZero n] in
theorem Laid.elsewhere (laid : Laid t v pc) {w : Sems n k} (value : ∀ f,w.value (t.fork f) = v.value (t.fork f))
    (asks : ∀ i,w.asks (t.seat i) = v.asks (t.seat i))
    (others : ∀ j,(∀ i,j ≠ t.seat i) → ∀ f x,w.asks j ≠ some (t.fork f,x)) : Laid t w pc := by
  have holders : ∀ i f,Holds t w pc i f ↔ Holds t v pc i f := by
    intro i f
    unfold Holds
    rw [asks]
  refine ⟨fun i s x asked => ?_,others,fun f => ?_,fun i f x asked => ?_⟩
  · rw [asks] at asked
    exact laid.asks i s x asked
  · rw [value]
    simp only [holders]
    exact laid.units f
  · rw [asks] at asked
    rw [value]
    exact laid.short i f x asked

theorem Dining.laid (two : 2 ≤ N) (dining : Dining t v pc) : Laid t v pc := by
  induction dining with
  | start ones seated others => exact .start ones seated others
  | @turn v pc i _ free laid =>
      have less := first_lt_second two i
      have returned : (v.asks (t.seat i)).isNone = true := by
        rw [free]
        rfl
      have now : ∀ f,Holds t v pc i f ↔ (pc i).holds true i f := by
        intro f
        unfold Holds
        rw [returned]
      cases phase : pc i with
      | hungry =>
          have hands : ∀ f,¬ Holds t v pc i f := by
            intro f held
            rw [now,phase] at held
            exact held
          refine laid.wait (.inl ⟨rfl,rfl⟩) (fun f => ?_) (fun f => ?_) (hands _) free
          · simp [Phase.holds,Phase.next,hands f]
          · simp [Phase.holds,Phase.next,hands f]
      | reaching =>
          have hands : ∀ f,Holds t v pc i f ↔ f = firstFork i := by
            intro f
            rw [now,phase]
            simp [Phase.holds]
          refine laid.wait (.inr ⟨rfl,rfl⟩) (fun f => ?_) (fun f => ?_) (fun held => ?_) free
          · rw [hands]
            simp [Phase.holds,Phase.next]
          · rw [hands]
            simp [Phase.holds,Phase.next]
          · exact absurd ((hands _).mp held) (ne_of_gt less)
      | eating =>
          have hands : ∀ f,Holds t v pc i f ↔ f = firstFork i ∨ f = secondFork i := by
            intro f
            rw [now,phase]
            simp [Phase.holds]
          refine laid.post (fun f => ?_) ((hands _).mpr (.inl rfl)) free
          rw [hands]
          show f = secondFork i ↔ _
          constructor
          · rintro rfl
            exact ⟨.inr rfl,ne_of_gt less⟩
          · rintro ⟨first | second,other⟩
            · exact absurd first other
            · exact second
      | putting =>
          have hands : ∀ f,Holds t v pc i f ↔ f = secondFork i := by
            intro f
            rw [now,phase]
            exact Iff.rfl
          refine laid.post (fun f => ?_) ((hands _).mpr rfl) free
          rw [hands]
          exact ⟨fun wrong => False.elim wrong,fun both => both.2 both.1⟩
  | @waits v pc j s x _ strange other laid =>
      refine laid.elsewhere (fun f => Sems.wait_value (Ne.symm (other f))) (fun i => Sems.wait_asks (Ne.symm (strange i)))
        fun l away f y asked => ?_
      unfold Sems.wait at asked
      split at asked
      · exact laid.others l away f y asked
      · by_cases here : l = j
        · rw [here] at asked
          dsimp only at asked
          rw [Function.update_self] at asked
          exact other f (congrArg Prod.fst (Option.some.inj asked))
        · dsimp only at asked
          rw [Function.update_of_ne here] at asked
          exact laid.others l away f y asked
  | @posts v pc j s x _ other laid =>
      refine laid.elsewhere (fun f => Sems.post_value (Ne.symm (other f))) (fun i => ?_) fun l away f y asked => ?_
      · rcases (Sems.post_asks : (v.post j s x).asks (t.seat i) = _ ∨ _) with same | ⟨_,y,asked⟩
        · exact same
        · rcases (laid.asks i s y asked).2 with ⟨_,fork⟩ | ⟨_,fork⟩
          · exact absurd fork (other _)
          · exact absurd fork (other _)
      · rcases (Sems.post_asks : (v.post j s x).asks l = _ ∨ _) with same | ⟨none,_⟩
        · rw [same] at asked
          exact laid.others l away f y asked
        · rw [none] at asked
          cases asked

-- Between the second wait and the first post.
def Eats (t : Seating N n k) (v : Sems n k) (pc : Fin N → Phase) (i : Fin N) : Prop :=
  pc i = .eating ∧ v.asks (t.seat i) = none

omit [NeZero n] in
theorem Laid.one (laid : Laid t v pc) {i j f : Fin N} (mine : Holds t v pc i f) (yours : Holds t v pc j f) : i = j := by
  rcases laid.units f with ⟨_,nobody⟩ | ⟨_,holder,holds⟩
  · exact absurd mine (nobody i)
  · exact ((holds i).mp mine).trans ((holds j).mp yours).symm

omit [NeZero n] in
theorem Eats.holds {i : Fin N} (eats : Eats t v pc i) : Holds t v pc i i ∧ Holds t v pc i (rightFork i) := by
  have both : Holds t v pc i (firstFork i) ∧ Holds t v pc i (secondFork i) := by
    unfold Holds
    rw [eats.1,eats.2]
    exact ⟨.inl rfl,.inr ⟨rfl,rfl⟩⟩
  rcases both_forks i with ⟨first,second⟩ | ⟨first,second⟩
  · rw [first,second] at both
    exact both
  · rw [first,second] at both
    exact both.symm

-- Were all of them waiting, the one who waits for the greatest fork would find it in
-- the hands of somebody who waits for a greater one.
omit [NeZero n] in
theorem Laid.someone (laid : Laid t v pc) (two : 2 ≤ N) : ∃ i,v.asks (t.seat i) = none := by
  by_contra all
  have waits : ∀ i,∃ f,v.asks (t.seat i) = some (t.fork f,1) ∧
      (pc i = .reaching ∧ f = firstFork i ∨ pc i = .eating ∧ f = secondFork i) := by
    intro i
    cases asks : v.asks (t.seat i) with
    | none => exact absurd ⟨i,asks⟩ all
    | some ask =>
        obtain ⟨s,x⟩ := ask
        obtain ⟨unit,⟨phase,fork⟩ | ⟨phase,fork⟩⟩ := laid.asks i s x asks
        · exact ⟨firstFork i,by rw [unit,fork],.inl ⟨phase,rfl⟩⟩
        · exact ⟨secondFork i,by rw [unit,fork],.inr ⟨phase,rfl⟩⟩
  choose f asks phases using waits
  obtain ⟨i,greatest⟩ := Finite.exists_max f
  have gone := laid.short i (f i) 1 (asks i)
  obtain ⟨j,holds⟩ : ∃ j,Holds t v pc j (f i) := by
    rcases laid.units (f i) with ⟨there,_⟩ | ⟨_,j,holds⟩
    · rw [gone] at there
      cases there
    · exact ⟨j,(holds j).mpr rfl⟩
  unfold Holds at holds
  rw [asks j] at holds
  rcases phases j with ⟨phase,_⟩ | ⟨phase,second⟩
  · rw [phase] at holds
    cases holds.2
  · rw [phase] at holds
    rcases holds with first | wrong
    · have less := first_lt_second two j
      have bound := greatest j
      rw [first,second] at bound
      exact absurd less (not_lt.mpr bound)
    · cases wrong.2

-- No fork is in two hands, no two neighbours eat, and somebody does not wait.
structure Safe (t : Seating N n k) (v : Sems n k) (pc : Fin N → Phase) : Prop where
  forks : ∀ i j f,Holds t v pc i f → Holds t v pc j f → i = j
  neighbours : ∀ i j,i ≠ j → rightFork i = j → ¬ (Eats t v pc i ∧ Eats t v pc j)
  someone : ∃ i,v.asks (t.seat i) = none

theorem Dining.safe (two : 2 ≤ N) (dining : Dining t v pc) : Safe t v pc := by
  have laid := dining.laid two
  refine ⟨fun i j f => laid.one,fun i j other next both => ?_,laid.someone two⟩
  obtain ⟨mine,yours⟩ := both
  have right := mine.holds.2
  rw [next] at right
  exact other (laid.one right yours.holds.1)

end Table
end ArchiveOs.Philosophers
