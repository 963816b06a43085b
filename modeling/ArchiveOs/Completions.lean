import ArchiveOs.Programs

-- Programs that do not stop on the way, from one state or from any.
namespace ArchiveOs
namespace Prog
section Rules
variable {Note Stop State α β : Type}

def Completes (p : Prog Note Stop State α) (s : State) : Prop := ∃ a t,p.Ends s a t

structure Total (p : Prog Note Stop State α) : Prop where
  completes : ∀ s,p.Completes s

variable {p q : Prog Note Stop State α} {f : α → Prog Note Stop State β} {s : State}

theorem completes_bind (first : p.Completes s) (rest : ∀ a t,p.Ends s a t → (f a).Completes t) : (p >>= f).Completes s := by
  obtain ⟨a,t,run⟩ := first
  obtain ⟨b,u,last⟩ := rest a t run
  exact ⟨b,u,ends_bind.mpr ⟨a,t,run,last⟩⟩

theorem completes_ite {c : Prop} [Decidable c] (yes : c → p.Completes s) (no : ¬ c → q.Completes s) :
    Completes (if c then p else q) s := by
  split
  · exact yes ‹_›
  · exact no ‹_›

theorem total_pure {a : α} : Total (pure a : Prog Note Stop State α) := ⟨fun s => ⟨a,s,ends_pure.mpr ⟨rfl,rfl⟩⟩⟩
theorem total_read {g : State → α} : Total (read g : Prog Note Stop State α) := ⟨fun s => ⟨g s,s,ends_read.mpr ⟨rfl,rfl⟩⟩⟩

theorem total_update {g : State → State} : Total (update g : Prog Note Stop State Unit) :=
  ⟨fun s => ⟨(),g s,ends_update.mpr rfl⟩⟩

theorem total_note {n : Note} : Total (note n : Prog Note Stop State Unit) := ⟨fun s => ⟨(),s,ends_note.mpr rfl⟩⟩

theorem total_bind (first : Total p) (rest : ∀ a,Total (f a)) : Total (p >>= f) where
  completes s := completes_bind (first.completes s) fun a t _ => (rest a).completes t

theorem total_ite {c : Prop} [Decidable c] (yes : c → Total p) (no : ¬ c → Total q) : Total (if c then p else q) where
  completes s := completes_ite (fun here => (yes here).completes s) fun here => (no here).completes s

theorem completes_read {g : State → α} (next : (f (g s)).Completes s) : (read g >>= f).Completes s :=
  completes_bind (total_read.completes s) fun a t run => by
    obtain ⟨rfl,rfl⟩ := ends_read.mp run
    exact next

theorem completes_lift {Part : Type} {get : State → Part} {put : State → Part → State} {e : Stop}
    {g : Part → Option (Part × α)} : Completes (lift get put e g : Prog Note Stop State α) s ↔ (g (get s)).isSome := by
  unfold Completes
  simp only [ends_lift]
  rw [Option.isSome_iff_exists]
  constructor
  · rintro ⟨a,_,part,run,rfl⟩
    exact ⟨_,run⟩
  · rintro ⟨⟨part,a⟩,run⟩
    exact ⟨a,_,part,run,rfl⟩

end Rules

section Searches
variable {Note Stop State : Type} {n : Nat} [NeZero n] {test : Fin n → Prog Note Stop State Bool} {current : Fin n}

theorem search_total (each : ∀ i,Total (test i)) (turns : Nat) (i : Fin n) : Total (search test current turns i) := by
  induction turns generalizing i with
  | zero => exact total_pure
  | succ turns ih =>
      refine total_ite (fun _ => total_pure) fun _ => total_bind (each i) fun _ => ?_
      exact total_ite (fun _ => total_pure) fun _ => ih _

end Searches
end Prog
end ArchiveOs
