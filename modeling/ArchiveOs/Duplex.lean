import Mathlib.Logic.Relation

-- Two parties on a line that carries symbols both ways: a program that sends and
-- receives, and a peer that answers each symbol with some others. Both go on at their own
-- pace, and no order of their steps changes how they end.
namespace ArchiveOs.Duplex

inductive Talk (Sym α : Type) where
  | ret (a : α)
  | put (c : Sym) (next : Talk Sym α)
  | get (next : Sym → Talk Sym α)

namespace Talk
variable {Sym α β γ : Type}

def bind : Talk Sym α → (α → Talk Sym β) → Talk Sym β
  | ret a,f => f a
  | put c next,f => put c (next.bind f)
  | get next,f => get fun c => (next c).bind f

instance : Monad (Talk Sym) where
  pure := ret
  bind := bind

def send (c : Sym) : Talk Sym Unit := put c (ret ())
def recv : Talk Sym Sym := get ret

def sends : List Sym → Talk Sym Unit
  | [] => pure ()
  | c :: cs => do
    send c
    sends cs

-- A request that is made again while it fails.
def retry (t : Talk Sym (Option α)) : Nat → Talk Sym (Option α)
  | 0 => pure none
  | turns + 1 => do
    match ← t with
    | some a => pure (some a)
    | none => retry t turns

theorem bind_assoc (t : Talk Sym α) (f : α → Talk Sym β) (g : β → Talk Sym γ) :
    (t >>= f) >>= g = t >>= fun a => f a >>= g := by
  induction t with
  | ret a => rfl
  | put c next ih => exact congrArg (put c) ih
  | get next ih => exact congrArg get (funext ih)

@[simp] theorem pure_bind (a : α) (f : α → Talk Sym β) : (pure a : Talk Sym α) >>= f = f a := rfl

theorem sends_append (cs ds : List Sym) : sends (cs ++ ds) = sends cs >>= fun _ => sends ds := by
  induction cs with
  | nil => rfl
  | cons c cs ih => exact congrArg (put c) ih

theorem sends_one (c : Sym) : send c = sends [c] := rfl

end Talk

section Line
variable {Sym State α β : Type}

-- A peer that answers at once. A program that waits for a symbol that never comes has no
-- result.
def converse (react : State → Sym → State × List Sym) : Talk Sym α → State → List Sym → Option (α × State × List Sym)
  | .ret a,s,down => some (a,s,down)
  | .put c next,s,down => converse react next (react s c).1 (down ++ (react s c).2)
  | .get _,_,[] => none
  | .get next,s,c :: down => converse react (next c) s down

-- `up` is on the way to the peer and `down` on the way back.
structure Line (Sym State α : Type) where
  talk : Talk Sym α
  up : List Sym
  peer : State
  down : List Sym

inductive Step (react : State → Sym → State × List Sym) : Line Sym State α → Line Sym State α → Prop where
  | put {c : Sym} {next : Talk Sym α} {up down : List Sym} {s : State} :
      Step react ⟨.put c next,up,s,down⟩ ⟨next,up ++ [c],s,down⟩
  | get {c : Sym} {next : Sym → Talk Sym α} {up down : List Sym} {s : State} :
      Step react ⟨.get next,up,s,c :: down⟩ ⟨next c,up,s,down⟩
  | react {c : Sym} {t : Talk Sym α} {up down : List Sym} {s : State} :
      Step react ⟨t,c :: up,s,down⟩ ⟨t,up,(react s c).1,down ++ (react s c).2⟩

abbrev Steps (react : State → Sym → State × List Sym) : Line Sym State α → Line Sym State α → Prop :=
  Relation.ReflTransGen (Step react)

variable {react : State → Sym → State × List Sym}

theorem converse_bind (t : Talk Sym α) (f : α → Talk Sym β) (s : State) (down : List Sym) :
    converse react (t >>= f) s down = (converse react t s down).bind fun r => converse react (f r.1) r.2.1 r.2.2 := by
  induction t generalizing s down with
  | ret a => rfl
  | put c next ih => exact ih (react s c).1 (down ++ (react s c).2)
  | get next ih =>
      cases down with
      | nil => rfl
      | cons c down => exact ih c s down

theorem converse_then {t : Talk Sym α} {f : α → Talk Sym β} {s s' : State} {down down' : List Sym} {a : α}
    (first : converse react t s down = some (a,s',down')) : converse react (t >>= f) s down = converse react (f a) s' down' := by
  rw [converse_bind,first]
  rfl

@[simp] theorem converse_pure (a : α) (s : State) (down : List Sym) :
    converse react (pure a : Talk Sym α) s down = some (a,s,down) := rfl

@[simp] theorem converse_recv (c : Sym) (s : State) (down : List Sym) :
    converse react Talk.recv s (c :: down) = some (c,s,down) := rfl

theorem converse_retry_some {t : Talk Sym (Option α)} {s s' : State} {down down' : List Sym} {a : α} (turns : Nat)
    (met : converse react t s down = some (some a,s',down')) :
    converse react (Talk.retry t (turns + 1)) s down = some (some a,s',down') := converse_then met

theorem converse_retry_none {t : Talk Sym (Option α)} {s s' : State} {down down' : List Sym} (turns : Nat)
    (met : converse react t s down = some (none,s',down')) :
    converse react (Talk.retry t (turns + 1)) s down = converse react (Talk.retry t turns) s' down' := converse_then met

theorem converse_sends (keep : State → Sym → State) {silent : Sym → Prop}
    (quiet : ∀ s c,silent c → react s c = (keep s c,[])) (cs : List Sym) (all : ∀ c ∈ cs,silent c) (s : State)
    (down : List Sym) : converse react (Talk.sends cs) s down = some ((),cs.foldl keep s,down) := by
  induction cs generalizing s with
  | nil => rfl
  | cons c cs ih =>
      have here := quiet s c (all c (.head _))
      show converse react (Talk.sends cs) (react s c).1 (down ++ (react s c).2) = _
      rw [here,List.append_nil]
      exact ih (fun d member => all d (.tail _ member)) (keep s c)

theorem Step.diamond {l m n : Line Sym State α} (one : Step react l m) (two : Step react l n) :
    m = n ∨ ∃ o,Step react m o ∧ Step react n o := by
  cases one with
  | put =>
      cases two with
      | put => exact .inl rfl
      | react => exact .inr ⟨_,.react,.put⟩
  | get =>
      cases two with
      | get => exact .inl rfl
      | react => exact .inr ⟨_,.react,.get⟩
  | react =>
      cases two with
      | react => exact .inl rfl
      | put => exact .inr ⟨_,.put,.react⟩
      | get => exact .inr ⟨_,.get,.react⟩

theorem Steps.join {l m n : Line Sym State α} (one : Steps react l m) (two : Steps react l n) :
    Relation.Join (Steps react) m n := by
  refine Relation.church_rosser (fun a b c first second => ?_) one two
  rcases first.diamond second with rfl | ⟨d,left,right⟩
  · exact ⟨b,.refl,.refl⟩
  · exact ⟨d,.single left,.single right⟩

theorem Step.settled {a : α} {s : State} {down : List Sym} {l : Line Sym State α}
    (step : Step react ⟨.ret a,[],s,down⟩ l) : False := by
  cases step

theorem converse_steps {t : Talk Sym α} {s s' : State} {down down' : List Sym} {a : α}
    (met : converse react t s down = some (a,s',down')) : Steps react ⟨t,[],s,down⟩ ⟨.ret a,[],s',down'⟩ := by
  induction t generalizing s down with
  | ret b =>
      cases met
      exact .refl
  | put c next ih => exact .head .put (.head .react (ih met))
  | get next ih =>
      cases down with
      | nil => cases met
      | cons c down => exact .head .get (ih c met)

theorem converse_confluent {t : Talk Sym α} {s s' : State} {down down' : List Sym} {a : α} {l : Line Sym State α}
    (met : converse react t s down = some (a,s',down')) (steps : Steps react ⟨t,[],s,down⟩ l) :
    Steps react l ⟨.ret a,[],s',down'⟩ := by
  obtain ⟨m,left,right⟩ := steps.join (converse_steps met)
  cases right.cases_head with
  | inl same => rw [same]; exact left
  | inr next =>
      obtain ⟨_,step,_⟩ := next
      exact step.settled.elim

end Line

end ArchiveOs.Duplex
