import ArchiveOs.SemInits

-- The units of the semaphores: posted, taken, and handed over to those who wait.
namespace ArchiveOs.Kernel
open Fs2
open Prog

-- By semaphore.
structure Ledger where
  posted : Fin pcbSize → Nat
  granted : Fin pcbSize → Nat

namespace Ledger

-- SEM_POST, with what the processes get that it wakes.
def posts (l : Ledger) (m m' : Machine) : Ledger where
  posted k := l.posted k + if (m.ctx.gpr 0).toNat = k.val then (m.ctx.gpr 1).toNat else 0
  granted k := l.granted k +
    if (m.ctx.gpr 0).toNat = k.val then ∑ i ∈ m.wakes m',(m.pcb i).waiting.x.toNat else 0

-- SEM_WAIT takes its units at once when do_sem_wait returns true.
def waits (l : Ledger) (m : Machine) : Ledger where
  posted := l.posted
  granted k := l.granted k +
    if (m.ctx.gpr 0).toNat = k.val ∧ (doSemWait (m.ctx.gpr 0) (m.ctx.gpr 1)).answer m = some true then
      (m.ctx.gpr 1).toNat
    else 0

def svc (l : Ledger) (m m' : Machine) : Nat → Ledger
  | 0x09 => l.posts m m'
  | 0x0A => l.waits m
  | _ => l

-- The entries for a call that has led from m to m'.
def record (l : Ledger) (m m' : Machine) : Event → Ledger
  | .irq _ => l
  | .svc id => l.svc m m' id.toNat

end Ledger

-- A run from a machine on, without SEM_INIT, with its ledger.
inductive Trade (start : Machine) : Machine → Ledger → Prop where
  | start : Trade start start ⟨fun _ => 0,fun _ => 0⟩
  | call {m m' : Machine} {l : Ledger} {e : Event} {ctx : Ctx} {ram : UInt32 → UInt8} : Trade start m l →
      (∀ id,e = .svc id → id.toNat ≠ 0x08) → (handle e).Ends (m.enter ctx ram) () m' →
      Trade start m' (l.record (m.enter ctx ram) m' e)

-- What is in semaphore k is what was there and was posted, less what was granted.
structure Conserved (start m : Machine) (l : Ledger) (k : Fin pcbSize) : Prop where
  modulo : m.sem k = start.sem k + UInt32.ofNat (l.posted k) - UInt32.ofNat (l.granted k)
  exact : (start.sem k).toNat + l.posted k < 2 ^ 32 →
    (m.sem k).toNat + l.granted k = (start.sem k).toNat + l.posted k

-- What a post wakes and leaves alone.
structure PostStep (m m' : Machine) : Prop where
  one : ∀ i ∈ m.wakes m',∀ j ∈ m.wakes m',i = j
  due : ∀ i ∈ m.wakes m',∃ k : Fin pcbSize,(m.ctx.gpr 0).toNat = k.val ∧ m.WaitsFor k (m.ctx.gpr 1) i
  sems : ∀ k : Fin pcbSize,(m.ctx.gpr 0).toNat ≠ k.val → m'.sem k = m.sem k
  others : ∀ i,i ∉ m.wakes m' → (m'.pcb i).status = (m.pcb i).status

section Steps
variable {start m m' : Machine} {l : Ledger} {k : Fin pcbSize} {v : Procs} {e : Event}

theorem Conserved.same (c : Conserved start m l k) (sem : m'.sem k = m.sem k) : Conserved start m' l k where
  modulo := sem.trans c.modulo
  exact small := sem ▸ c.exact small

-- Units that come in and go out in one step, of which no more go out than there are.
theorem Conserved.moves (c : Conserved start m l k) {l' : Ledger} {x y : UInt32}
    (posted : l'.posted k = l.posted k + x.toNat) (granted : l'.granted k = l.granted k + y.toNat)
    (sem : m'.sem k = m.sem k + x - y) (enough : y.toNat ≤ (m.sem k).toNat + x.toNat) : Conserved start m' l' k where
  modulo := by
    rw [sem,c.modulo,posted,granted,UInt32.ofNat_add,UInt32.ofNat_add,UInt32.ofNat_toNat,UInt32.ofNat_toNat]
    grind
  exact small := by
    have before := c.exact (by omega)
    rw [sem,granted,posted]
    have total : (m.sem k + x).toNat = (m.sem k).toNat + x.toNat := by
      rw [UInt32.toNat_add]
      exact Nat.mod_eq_of_lt (by omega)
    rw [UInt32.toNat_sub_of_le _ _ (UInt32.le_iff_toNat_le.mpr (by omega)),total]
    omega

theorem ProcsAfter.sem (did : ProcsAfter m v e) (quiet : ∀ id,e = .svc id → id.toNat ∉ [0x08,0x09,0x0A]) : v.sem = m.sem := by
  cases did with
  | stays same => rw [same]; rfl
  | ticks same => rw [same]; exact Procs.next_sem _ _
  | yields _ same => rw [same]; exact Procs.next_sem _ _
  | forks _ forked => cases forked with
    | full _ same => rw [same]; rfl
    | poor _ _ same => rw [same]; rfl
    | born _ _ _ same => rw [same]; rfl
  | exits _ _ _ same => rw [same]; exact Procs.next_sem _ _
  | execs _ same => rw [same]; rfl
  | kills _ kills => cases kills with
    | none => rfl
    | one i =>
        unfold Procs.kill
        split <;> rfl
  | inits id => exact absurd (by rw [id]; decide) (quiet _ rfl)
  | posts id => exact absurd (by rw [id]; decide) (quiet _ rfl)
  | waits id => exact absurd (by rw [id]; decide) (quiet _ rfl)
  | execxs _ same => rw [same]; rfl
  | other _ same =>
      rcases same with same | ⟨r,same⟩
      · rw [same]; rfl
      · rw [same]; rfl

theorem svcSemPost_posted (run : svcSemPost.Ends m () m') :
    (((∃ k : Fin pcbSize,(m.ctx.gpr 0).toNat = k.val) → m.ctx.gpr 1 = 0) ∧
      (∀ i,(m'.pcb i).status = (m.pcb i).status) ∧ m'.sem = m.sem) ∨
      ∃ k : Fin pcbSize,(m.ctx.gpr 0).toNat = k.val ∧ Posted m m' k (m.ctx.gpr 1) := by
  have did := svcSemPost_did run
  have status := fun i => congrArg (fun v : Procs => (v.pcb i).status) did
  have sem : m'.sem = _ := congrArg Procs.sem did
  by_cases bound : (m.ctx.gpr 0).toNat < pcbSize
  · have index : (m.ctx.gpr 0).toNat = (⟨_,bound⟩ : Fin pcbSize).val := rfl
    rcases posted index status sem with ⟨zero,same⟩ | paid
    · exact .inl ⟨fun _ => zero,same⟩
    · exact .inr ⟨_,index,paid⟩
  · unfold Procs.doSemPost at status sem
    rw [dif_neg bound] at status sem
    exact .inl ⟨fun ⟨k,index⟩ => absurd k.isLt (by omega),status,sem⟩

theorem postStep (run : svcSemPost.Ends m () m') : PostStep m m' := by
  rcases svcSemPost_posted run with ⟨_,status,sem⟩ | ⟨k,index,paid⟩
  · have nobody := woken_none status
    refine ⟨?_,?_,fun k _ => congrFun sem k,fun i _ => status i⟩
    · rw [nobody]
      exact fun a wrong => absurd wrong (Finset.notMem_empty a)
    · rw [nobody]
      exact fun a wrong => absurd wrong (Finset.notMem_empty a)
  · cases paid with
    | woke i first woken status sem =>
        refine ⟨?_,?_,?_,?_⟩
        · rw [woken]
          intro a is_a b is_b
          rw [Finset.mem_singleton.mp is_a,Finset.mem_singleton.mp is_b]
        · rw [woken]
          intro a is_a
          rw [Finset.mem_singleton.mp is_a]
          exact ⟨k,index,first.toWaitsFor⟩
        · intro l other
          rw [sem]
          exact put_other _ _ fun here => other (by rw [here,index])
        · rw [woken]
          exact fun a other => status a fun here => other (Finset.mem_singleton.mpr here)
    | kept none status sem =>
        have nobody := woken_none status
        refine ⟨?_,?_,?_,fun a _ => status a⟩
        · rw [nobody]
          exact fun a wrong => absurd wrong (Finset.notMem_empty a)
        · rw [nobody]
          exact fun a wrong => absurd wrong (Finset.notMem_empty a)
        · intro l other
          rw [sem]
          exact put_other _ _ fun here => other (by rw [here,index])

theorem Conserved.posts (c : Conserved start m l k) (run : svcSemPost.Ends m () m') :
    Conserved start m' (l.posts m m') k := by
  by_cases index : (m.ctx.gpr 0).toNat = k.val
  · have granted : (l.posts m m').granted k = l.granted k + ∑ i ∈ m.wakes m',(m.pcb i).waiting.x.toNat :=
      congrArg (l.granted k + ·) (if_pos index)
    have posted : (l.posts m m').posted k = l.posted k + (m.ctx.gpr 1).toNat :=
      congrArg (l.posted k + ·) (if_pos index)
    rcases svcSemPost_posted run with ⟨nothing,status,sem⟩ | ⟨k',index',paid⟩
    · refine c.moves (x := m.ctx.gpr 1) (y := 0) posted ?_ ?_ (Nat.zero_le _)
      · rw [granted,woken_none status]
        rfl
      · rw [nothing ⟨k,index⟩,sem]
        grind
    · cases Fin.ext (index'.symm.trans index)
      cases paid with
      | woke i first woken _ sem =>
          refine c.moves (y := (m.pcb i).waiting.x) posted ?_ ?_ ?_
          · rw [granted,woken,Finset.sum_singleton]
          · rw [sem,put_self]
            grind
          · have enough := UInt32.le_iff_toNat_le.mp first.enough
            omega
      | kept none status sem =>
          refine c.moves (y := 0) posted ?_ ?_ (Nat.zero_le _)
          · rw [granted,woken_none status]
            rfl
          · rw [sem,put_self]
            grind
  · refine c.moves (x := 0) (y := 0) (congrArg (l.posted k + ·) (if_neg index))
      (congrArg (l.granted k + ·) (if_neg index)) ?_ (Nat.zero_le _)
    rw [(postStep run).sems k index]
    grind

theorem Conserved.waits (c : Conserved start m l k) (run : svcSemWait.Ends m () m') :
    Conserved start m' (l.waits m) k := by
  unfold svcSemWait at run
  simp only [ends_bind,gpr_ends] at run
  obtain ⟨_,_,⟨rfl,rfl⟩,_,_,⟨rfl,rfl⟩,granted,t,wait,rest⟩ := run
  have answer := answer_ends wait
  have waited := doSemWait_procs wait
  generalize stands : t.procs = w at waited
  have sem : m'.sem = t.sem := by
    cases granted with
    | true => rw [(ends_pure.mp rest).2]
    | false => exact congrArg Procs.sem (next_procs rest) |>.trans (Procs.next_sem _ _)
  cases waited with
  | granted i index enough =>
      have taken : m'.sem = put m.sem i (m.sem i - m.ctx.gpr 1) := sem.trans (congrArg Procs.sem stands)
      by_cases here : k = i
      · subst here
        refine c.moves (x := 0) rfl (congrArg (l.granted k + ·) (if_pos ⟨index,answer⟩)) ?_ ?_
        · rw [taken,put_self]
          grind
        · have less := UInt32.le_iff_toNat_le.mp enough
          exact Nat.le_trans less (Nat.le_add_right _ _)
      · have elsewhere : ¬ ((m.ctx.gpr 0).toNat = k.val ∧ (doSemWait (m.ctx.gpr 0) (m.ctx.gpr 1)).answer m = some true) := by
          rintro ⟨index',_⟩
          exact here (Fin.ext (index'.symm.trans index))
        refine c.moves (x := 0) (y := 0) rfl (congrArg (l.granted k + ·) (if_neg elsewhere)) ?_ (Nat.zero_le _)
        rw [taken,put_other _ _ here]
        grind
  | blocked i index short =>
      have same : m'.sem = m.sem := sem.trans (congrArg Procs.sem stands)
      have refused : ¬ ((m.ctx.gpr 0).toNat = k.val ∧ (doSemWait (m.ctx.gpr 0) (m.ctx.gpr 1)).answer m = some true) := by
        rintro ⟨_,granted⟩
        rw [answer] at granted
        cases granted
      refine c.moves (x := 0) (y := 0) rfl (congrArg (l.granted k + ·) (if_neg refused)) ?_ (Nat.zero_le _)
      rw [same]
      grind

theorem ledger_other {n : Nat} (m m' : Machine) (other : n ∉ [0x09,0x0A]) : l.svc m m' n = l := by
  unfold Ledger.svc
  split <;> simp_all

theorem Conserved.step (c : Conserved start m l k) (without : ∀ id,e = .svc id → id.toNat ≠ 0x08)
    (run : (handle e).Ends m () m') : Conserved start m' (l.record m m' e) k := by
  have did := handle_did run
  cases e with
  | irq id => exact c.same (congrFun (did.sem (by intro _ wrong; cases wrong)) k)
  | svc id =>
      by_cases posts : id.toNat = 0x09
      · have is : id = 0x09 := UInt32.toNat_inj.mp posts
        cases is
        exact c.posts run
      · by_cases waits : id.toNat = 0x0A
        · have is : id = 0x0A := UInt32.toNat_inj.mp waits
          cases is
          exact c.waits run
        · have quiet : id.toNat ∉ [0x08,0x09,0x0A] := by
            have init := without id rfl
            simp [init,posts,waits]
          have still : l.record m m' (.svc id) = l := ledger_other m m' (by simp [posts,waits])
          rw [still]
          exact c.same (congrFun (did.sem (by rintro _ ⟨rfl⟩; exact quiet)) k)

theorem Trade.conserved (trade : Trade start m l) (k : Fin pcbSize) : Conserved start m l k := by
  induction trade with
  | start =>
      refine ⟨?_,fun _ => rfl⟩
      show start.sem k = start.sem k + 0 - 0
      grind
  | @call m m' l e ctx ram _ without run ih =>
      have entered : Conserved start (m.enter ctx ram) l k := ih.same rfl
      exact entered.step without run

-- Units are conserved along every run, and every post of the run pays at most one
-- process, for which it is enough, and touches nothing else.
theorem units_conserved (trade : Trade start m l) : (∀ k,Conserved start m l k) ∧
    ∀ (ctx : Ctx) (ram : UInt32 → UInt8) (m' : Machine),(handle (.svc 0x09)).Ends (m.enter ctx ram) () m' →
      PostStep (m.enter ctx ram) m' :=
  ⟨trade.conserved,fun _ _ _ run => postStep run⟩

end Steps

-- A process waits for seven units of the five that are there, and another one posts
-- eight.
theorem units_conserved_seven : ∃ l : Ledger,l.posted 0 = 8 ∧ l.granted 0 = 7 ∧
    ∀ k,Conserved Machine.sevenWait (Machine.sevenWait.call 0x09 0 8) l k := by
  have first : Trade Machine.sevenWait Machine.sevenWait ⟨fun _ => 0,fun _ => 0⟩ := .start
  have posted := @Trade.call _ _ _ _ (.svc 0x09) (Machine.sevenWait.asks 0 8).ctx (Machine.sevenWait.asks 0 8).ram first
    (by rintro _ ⟨rfl⟩; decide) (ends_after (by decide +kernel))
  refine ⟨_,?_,?_,(units_conserved posted).1⟩
  · decide +kernel
  · decide +kernel

end ArchiveOs.Kernel
