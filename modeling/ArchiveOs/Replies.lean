import Mathlib.Data.List.Basic

-- Machines that answer calls. A concrete one may be undefined on a call, and there are
-- calls that it is not given; an abstract one answers everything.
namespace ArchiveOs.Replies

section Machines
variable {σ τ ι ρ : Type}

inductive Session (call : σ → ι → Option (σ × ρ)) (admits : σ → ι → Prop) : σ → List ι → List ρ → σ → Prop where
  | nil {s : σ} : Session call admits s [] [] s
  | cons {s t u : σ} {i : ι} {is : List ι} {r : ρ} {rs : List ρ} : admits s i → call s i = some (t,r) →
      Session call admits t is rs u → Session call admits s (i :: is) (r :: rs) u

def serve (answer : τ → ι → τ × ρ) : τ → List ι → τ × List ρ
  | t,[] => (t,[])
  | t,i :: is => ((serve answer (answer t i).1 is).1,(answer t i).2 :: (serve answer (answer t i).1 is).2)

-- Every call that is given is answered, the way the abstract machine does it.
def Simulates (call : σ → ι → Option (σ × ρ)) (admits : σ → ι → Prop) (answer : τ → ι → τ × ρ) (stands : σ → τ → Prop) : Prop :=
  ∀ s t i,stands s t → admits s i → ∃ s',call s i = some (s',(answer t i).2) ∧ stands s' (answer t i).1

variable {call : σ → ι → Option (σ × ρ)} {admits : σ → ι → Prop} {answer : τ → ι → τ × ρ} {stands : σ → τ → Prop}

theorem Session.append {s t u : σ} {is js : List ι} {rs qs : List ρ} (first : Session call admits s is rs t)
    (second : Session call admits t js qs u) : Session call admits s (is ++ js) (rs ++ qs) u := by
  induction first with
  | nil => exact second
  | cons admitted run _ ih => exact .cons admitted run (ih second)

theorem Simulates.session (sim : Simulates call admits answer stands) {s u : σ} {t : τ} {is : List ι} {rs : List ρ}
    (start : stands s t) (session : Session call admits s is rs u) :
    rs = (serve answer t is).2 ∧ stands u (serve answer t is).1 := by
  induction session generalizing t with
  | nil => exact ⟨rfl,start⟩
  | @cons s s' u i is r rs admitted run rest ih =>
      obtain ⟨next,run',stands'⟩ := sim s t i start admitted
      cases run.symm.trans run'
      obtain ⟨replies,last⟩ := ih stands'
      exact ⟨congrArg ((answer t i).2 :: ·) replies,last⟩

theorem Simulates.next (sim : Simulates call admits answer stands) {s u : σ} {t : τ} {is : List ι} {rs : List ρ}
    (start : stands s t) (session : Session call admits s is rs u) {i : ι} (admitted : admits u i) :
    ∃ u' r,Session call admits s (is ++ [i]) (rs ++ [r]) u' := by
  obtain ⟨u',run,_⟩ := sim u _ i (sim.session start session).2 admitted
  exact ⟨u',_,session.append (.cons admitted run .nil)⟩

end Machines
end ArchiveOs.Replies
