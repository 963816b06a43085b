import ArchiveOs.Cycles
import Mathlib.Data.List.Basic

-- Programs that work on a state, leave notes of what they touch and may stop on
-- the way. `Ends` is the meaning of a run that comes to its end, `notes` what any
-- run has touched, and each way of putting programs together has one rule for both.
namespace ArchiveOs
def Prog (Note Stop State : Type) (α : Type) := State → List Note × Except Stop (α × State)

namespace Prog
variable {Note Stop State α β : Type}

-- The second program starts where the first one has ended.
def andThen (p : Prog Note Stop State α) (f : α → Prog Note Stop State β) : Prog Note Stop State β := fun s =>
  match p s with
  | (notes,.error e) => (notes,.error e)
  | (notes,.ok (a,s)) => (notes ++ (f a s).1,(f a s).2)

instance : Monad (Prog Note Stop State) where
  pure a := fun s => ([],.ok (a,s))
  bind := andThen

def read (f : State → α) : Prog Note Stop State α := fun s => ([],.ok (f s,s))
def update (f : State → State) : Prog Note Stop State Unit := fun s => ([],.ok ((),f s))
def note (n : Note) : Prog Note Stop State Unit := fun s => ([n],.ok ((),s))
def stop (e : Stop) : Prog Note Stop State α := fun _ => ([],.error e)

-- A call of a program on a part of the state which may have no result.
def lift {Part : Type} (get : State → Part) (put : State → Part → State) (e : Stop)
    (f : Part → Option (Part × α)) : Prog Note Stop State α := fun s =>
  match f (get s) with
  | none => ([],.error e)
  | some (part,a) => ([],.ok (a,put s part))

def Ends (p : Prog Note Stop State α) (s : State) (a : α) (s' : State) : Prop := (p s).2 = .ok (a,s')
def notes (p : Prog Note Stop State α) (s : State) : List Note := (p s).1

-- Where a program stands when it has come to its end.
def after (p : Prog Note Stop State Unit) (s : State) : State :=
  match (p s).2 with
  | .ok (_,t) => t
  | .error _ => s

def done (p : Prog Note Stop State Unit) (s : State) : Bool :=
  match (p s).2 with
  | .ok _ => true
  | .error _ => false

theorem ends_after {p : Prog Note Stop State Unit} {s : State} (ok : p.done s = true) : p.Ends s () (p.after s) := by
  unfold done at ok
  unfold Ends after
  split at ok
  · rename_i here
    rw [here]
  · cases ok

def answer (p : Prog Note Stop State α) (s : State) : Option α :=
  match (p s).2 with
  | .ok (a,_) => some a
  | .error _ => none

theorem ends_answer {p : Prog Note Stop State α} {s : State} {a : α} (given : p.answer s = some a) :
    ∃ t,p.Ends s a t := by
  unfold answer at given
  unfold Ends
  split at given
  · rename_i t here
    cases Option.some.inj given
    exact ⟨t,here⟩
  · cases given

theorem answer_ends {p : Prog Note Stop State α} {s t : State} {a : α} (run : p.Ends s a t) : p.answer s = some a := by
  unfold answer
  rw [show (p s).2 = _ from run]

section Rules
variable {p : Prog Note Stop State α} {f : α → Prog Note Stop State β} {s s' : State}

theorem ends_unique {a b : α} {t : State} (one : p.Ends s a s') (two : p.Ends s b t) : a = b ∧ s' = t := by
  have same := Except.ok.inj (one.symm.trans two)
  exact ⟨congrArg Prod.fst same,congrArg Prod.snd same⟩

@[simp] theorem ends_pure {a b : α} : Ends (pure a : Prog Note Stop State α) s b s' ↔ a = b ∧ s = s' := by
  show Except.ok (a,s) = Except.ok (b,s') ↔ _
  simp

@[simp] theorem ends_read {g : State → α} {b : α} : Ends (read g : Prog Note Stop State α) s b s' ↔ g s = b ∧ s = s' := by
  show Except.ok (g s,s) = Except.ok (b,s') ↔ _
  simp

@[simp] theorem ends_update {g : State → State} {u : Unit} :
    Ends (update g : Prog Note Stop State Unit) s u s' ↔ g s = s' := by
  show Except.ok ((),g s) = Except.ok (u,s') ↔ _
  simp

@[simp] theorem ends_note {n : Note} {u : Unit} : Ends (note n : Prog Note Stop State Unit) s u s' ↔ s = s' := by
  show Except.ok ((),s) = Except.ok (u,s') ↔ _
  simp

@[simp] theorem ends_stop {e : Stop} {a : α} : ¬ Ends (stop e : Prog Note Stop State α) s a s' := by
  show ¬ (Except.error e = Except.ok (a,s'))
  simp

theorem bind_error {ns : List Note} {e : Stop} (first : p s = (ns,.error e)) : (p >>= f) s = (ns,.error e) := by
  show andThen p f s = _
  unfold andThen
  rw [first]

theorem bind_ok {ns : List Note} {a : α} {t : State} (first : p s = (ns,.ok (a,t))) :
    (p >>= f) s = (ns ++ (f a t).1,(f a t).2) := by
  show andThen p f s = _
  unfold andThen
  rw [first]

@[simp] theorem ends_bind {b : β} : Ends (p >>= f) s b s' ↔ ∃ a t,p.Ends s a t ∧ (f a).Ends t b s' := by
  unfold Ends
  rcases first : p s with ⟨ns,e | ⟨a,t⟩⟩
  · rw [bind_error first]
    simp
  · rw [bind_ok first]
    simp

@[simp] theorem ends_map {g : α → β} {b : β} : Ends (g <$> p) s b s' ↔ ∃ a,p.Ends s a s' ∧ g a = b := by
  show Ends (p >>= fun a => pure (g a)) s b s' ↔ _
  simp only [ends_bind,ends_pure]
  constructor
  · rintro ⟨a,t,run,rfl,rfl⟩; exact ⟨a,run,rfl⟩
  · rintro ⟨a,run,rfl⟩; exact ⟨a,_,run,rfl,rfl⟩

@[simp] theorem ends_ite {c : Prop} [Decidable c] {q r : Prog Note Stop State α} {a : α} :
    Ends (if c then q else r) s a s' ↔ c ∧ q.Ends s a s' ∨ ¬ c ∧ r.Ends s a s' := by
  split <;> simp [*]

@[simp] theorem ends_lift {Part : Type} {get : State → Part} {put : State → Part → State} {e : Stop}
    {g : Part → Option (Part × α)} {a : α} : Ends (lift get put e g : Prog Note Stop State α) s a s' ↔
      ∃ part,g (get s) = some (part,a) ∧ put s part = s' := by
  unfold Ends lift
  cases g (get s) with
  | none => simp
  | some result =>
      obtain ⟨part,b⟩ := result
      simp only [Except.ok.injEq,Prod.mk.injEq,Option.some.injEq]
      constructor
      · rintro ⟨rfl,rfl⟩; exact ⟨part,⟨rfl,rfl⟩,rfl⟩
      · rintro ⟨_,⟨rfl,rfl⟩,rfl⟩; exact ⟨rfl,rfl⟩

@[simp] theorem notes_note {n : Note} : notes (note n : Prog Note Stop State Unit) s = [n] := rfl

theorem notes_lift {Part : Type} {get : State → Part} {put : State → Part → State} {e : Stop}
    {g : Part → Option (Part × α)} : notes (lift get put e g : Prog Note Stop State α) s = [] := by
  unfold notes lift
  split <;> rfl

-- Every note of a run satisfies `good`, however the run ends.
def Notes (good : Note → Prop) (p : Prog Note Stop State α) (s : State) : Prop := ∀ n ∈ p.notes s,good n

@[simp] theorem noted_pure {good : Note → Prop} {a : α} : Notes good (pure a : Prog Note Stop State α) s :=
  fun _ member => nomatch member

@[simp] theorem noted_read {good : Note → Prop} {g : State → α} : Notes good (read g : Prog Note Stop State α) s :=
  fun _ member => nomatch member

@[simp] theorem noted_update {good : Note → Prop} {g : State → State} :
    Notes good (update g : Prog Note Stop State Unit) s :=
  fun _ member => nomatch member

@[simp] theorem noted_stop {good : Note → Prop} {e : Stop} : Notes good (stop e : Prog Note Stop State α) s :=
  fun _ member => nomatch member

@[simp] theorem noted_note {good : Note → Prop} {n : Note} : Notes good (note n : Prog Note Stop State Unit) s ↔ good n := by
  unfold Notes
  rw [notes_note]
  exact List.forall_mem_singleton

@[simp] theorem noted_lift {good : Note → Prop} {Part : Type} {get : State → Part} {put : State → Part → State} {e : Stop}
    {g : Part → Option (Part × α)} : Notes good (lift get put e g : Prog Note Stop State α) s := by
  unfold Notes
  rw [notes_lift]
  exact fun _ member => nomatch member

theorem notes_bind {good : Note → Prop} :
    Notes good (p >>= f) s ↔ Notes good p s ∧ ∀ a t,p.Ends s a t → Notes good (f a) t := by
  unfold Notes notes Ends
  rcases first : p s with ⟨ns,e | ⟨a,t⟩⟩
  · rw [bind_error first]
    simp
  · rw [bind_ok first]
    simp only [List.mem_append,Except.ok.injEq,Prod.mk.injEq]
    constructor
    · intro all
      refine ⟨fun n member => all n (.inl member),?_⟩
      rintro b u ⟨rfl,rfl⟩ n member
      exact all n (.inr member)
    · rintro ⟨head,next⟩ n (member | member)
      · exact head n member
      · exact next a t ⟨rfl,rfl⟩ n member

theorem notes_ite {good : Note → Prop} {c : Prop} [Decidable c] {q r : Prog Note Stop State α} :
    Notes good (if c then q else r) s ↔ (c → Notes good q s) ∧ (¬ c → Notes good r s) := by
  split <;> simp [*]

end Rules

-- What a program leaves alone, seen through a view of the state.
section Frame
variable {Note Stop State α β View : Type}

structure Keeps (view : State → View) (p : Prog Note Stop State α) : Prop where
  same : ∀ {s a s'},p.Ends s a s' → view s' = view s

variable {view : State → View} {p q : Prog Note Stop State α} {f : α → Prog Note Stop State β}

theorem keeps_pure {a : α} : Keeps view (pure a : Prog Note Stop State α) where
  same run := by rw [(ends_pure.mp run).2]

theorem keeps_read {g : State → α} : Keeps view (read g : Prog Note Stop State α) where
  same run := by rw [(ends_read.mp run).2]

theorem keeps_note {n : Note} : Keeps view (note n : Prog Note Stop State Unit) where
  same run := by rw [ends_note.mp run]

theorem keeps_stop {e : Stop} : Keeps view (stop e : Prog Note Stop State α) where
  same run := absurd run ends_stop

theorem keeps_update {g : State → State} (same : ∀ s,view (g s) = view s) :
    Keeps view (update g : Prog Note Stop State Unit) where
  same run := by
    rw [← ends_update.mp run]
    exact same _

theorem keeps_lift {Part : Type} {get : State → Part} {put : State → Part → State} {e : Stop}
    {g : Part → Option (Part × α)} (same : ∀ s part,view (put s part) = view s) :
    Keeps view (lift get put e g : Prog Note Stop State α) where
  same run := by
    obtain ⟨part,_,rfl⟩ := ends_lift.mp run
    exact same _ part

theorem keeps_bind (first : Keeps view p) (next : ∀ a,Keeps view (f a)) : Keeps view (p >>= f) where
  same run := by
    obtain ⟨a,t,run,run'⟩ := ends_bind.mp run
    exact ((next a).same run').trans (first.same run)

theorem keeps_ite {c : Prop} [Decidable c] (yes : c → Keeps view p) (no : ¬ c → Keeps view q) :
    Keeps view (if c then p else q) := by
  split
  case isTrue h => exact yes h
  case isFalse h => exact no h

end Frame

-- What a program gives back, wherever it starts.
section Values
variable {Note Stop State α β : Type} {good : β → Prop} {p q : Prog Note Stop State β}

structure Gives (good : β → Prop) (p : Prog Note Stop State β) : Prop where
  value : ∀ {s b s'},p.Ends s b s' → good b

theorem gives_pure {b : β} (fine : good b) : Gives good (pure b : Prog Note Stop State β) where
  value run := (ends_pure.mp run).1 ▸ fine

theorem gives_bind {r : Prog Note Stop State α} {f : α → Prog Note Stop State β} (next : ∀ a,Gives good (f a)) :
    Gives good (r >>= f) where
  value run := by
    obtain ⟨a,t,_,run⟩ := ends_bind.mp run
    exact (next a).value run

theorem gives_ite {c : Prop} [Decidable c] (yes : Gives good p) (no : Gives good q) : Gives good (if c then p else q) := by
  split
  · exact yes
  · exact no

end Values

-- The first place from i on that passes the test, before `current` is met.
section Search
variable {Note Stop State : Type} {n : Nat} [NeZero n]

def search (test : Fin n → Prog Note Stop State Bool) (current : Fin n) : (turns : Nat) → (i : Fin n) →
    Prog Note Stop State (Option (Fin n))
  | 0,_ => pure none
  | turns + 1,i => do
    if i = current then pure none
    else
      let passes ← test i
      if passes then pure (some i) else search test current turns (i + 1)

variable {test : Fin n → Prog Note Stop State Bool} {current i : Fin n} {turns : Nat} {s s' : State}

theorem ends_search (pass : Fin n → Bool) (reads : ∀ i a t,(test i).Ends s a t ↔ pass i = a ∧ s = t)
    {r : Option (Fin n)} :
    (search test current turns i).Ends s r s' ↔ Cycle.scan pass current turns i = r ∧ s = s' := by
  induction turns generalizing i with
  | zero => exact ends_pure
  | succ turns ih =>
      unfold search Cycle.scan
      by_cases here : i = current
      · simp only [here,if_true,ends_pure]
      · simp only [if_neg here,ends_bind,reads,ends_ite,ends_pure]
        cases pass i
        · simpa using ih
        · simp

end Search

-- An invariant of the state, under which a program leaves good notes only.
section Guarded
variable {Note Stop State α β : Type} {inv : State → Prop} {good : Note → Prop} {p q : Prog Note Stop State α}
  {f : α → Prog Note Stop State β}

structure Guards (inv : State → Prop) (good : Note → Prop) (p : Prog Note Stop State α) : Prop where
  noted : ∀ {s},inv s → Notes good p s
  kept : ∀ {s a s'},inv s → p.Ends s a s' → inv s'

theorem guards_pure {a : α} : Guards inv good (pure a : Prog Note Stop State α) where
  noted _ := noted_pure
  kept held run := (ends_pure.mp run).2 ▸ held

theorem guards_read {g : State → α} : Guards inv good (read g : Prog Note Stop State α) where
  noted _ := noted_read
  kept held run := (ends_read.mp run).2 ▸ held

theorem guards_stop {e : Stop} : Guards inv good (stop e : Prog Note Stop State α) where
  noted _ := noted_stop
  kept _ run := absurd run ends_stop

theorem guards_note {n : Note} (fine : good n) : Guards inv good (note n : Prog Note Stop State Unit) where
  noted _ := noted_note.mpr fine
  kept held run := ends_note.mp run ▸ held

theorem guards_update {g : State → State} (kept : ∀ s,inv s → inv (g s)) :
    Guards inv good (update g : Prog Note Stop State Unit) where
  noted _ := noted_update
  kept held run := ends_update.mp run ▸ kept _ held

theorem guards_lift {Part : Type} {get : State → Part} {put : State → Part → State} {e : Stop}
    {g : Part → Option (Part × α)} (kept : ∀ s part,inv s → inv (put s part)) :
    Guards inv good (lift get put e g : Prog Note Stop State α) where
  noted _ := noted_lift
  kept held run := by
    obtain ⟨part,_,rfl⟩ := ends_lift.mp run
    exact kept _ part held

theorem guards_after (first : Guards inv good p) (next : ∀ {a s t},inv s → p.Ends s a t → Guards inv good (f a)) :
    Guards inv good (p >>= f) where
  noted held := notes_bind.mpr ⟨first.noted held,fun _ _ run => (next held run).noted (first.kept held run)⟩
  kept held run := by
    obtain ⟨a,t,one,two⟩ := ends_bind.mp run
    exact (next held one).kept (first.kept held one) two

theorem guards_bind (first : Guards inv good p) (next : ∀ a,Guards inv good (f a)) : Guards inv good (p >>= f) :=
  guards_after first fun {a} _ _ _ _ => next a

theorem guards_ite {c : Prop} [Decidable c] (yes : c → Guards inv good p) (no : ¬ c → Guards inv good q) :
    Guards inv good (if c then p else q) := by
  split
  case isTrue h => exact yes h
  case isFalse h => exact no h

theorem guards_search {n : Nat} [NeZero n] {test : Fin n → Prog Note Stop State Bool} {current i : Fin n} {turns : Nat}
    (each : ∀ i,Guards inv good (test i)) : Guards inv good (search test current turns i) := by
  induction turns generalizing i with
  | zero => exact guards_pure
  | succ turns ih =>
      refine guards_ite (fun _ => guards_pure) fun _ => guards_bind (each i) fun _ => ?_
      exact guards_ite (fun _ => guards_pure) fun _ => ih

end Guarded
end Prog
end ArchiveOs
