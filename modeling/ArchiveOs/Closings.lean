import ArchiveOs.Tallies

-- What CLOSE and EXIT do to the descriptors.
namespace ArchiveOs.Kernel
open References
open Prog

namespace Descs

-- How one descriptor is closed. The last of an end of a pipe takes the other end with it.
inductive Closes (d d' : Descs) (i : Fin pcbSize) (fd : Fin fdtSize) : Prop where
  | nothing : d.fdt i fd = -1 → d' = d → Closes d d' i fd
  | less {k : Fin openSize} {p : UInt32} {e : Fdte} : Drop d d' i fd k p e → d'.openft = d.openft →
      d'.fdtes p = some {e with openCount := e.openCount - 1} → (e.type ≠ .uart → 1 < e.openCount) → Closes d d' i fd
  | last {k : Fin openSize} {p : UInt32} {e : Fdte} : Drop d d' i fd k p e → e.type = .file → e.openCount ≤ 1 →
      d'.openft = put d.openft k none → Closes d d' i fd
  | torn {k : Fin openSize} {p : UInt32} {e : Fdte} : d.fdt i fd = k.val → d.openft k = some p → d.fdtes p = some e →
      e.type = .pipe → e.openCount ≤ 1 → Closes d d' i fd
  | kern {k : Fin openSize} {p : UInt32} {e : Fdte} : d.openft k = some p → d.fdtes p = some e → e.type = .kern →
      Closes d d' i fd

-- An end of a pipe.
def PipeAt (d : Descs) (k : Fin openSize) : Prop := ∃ p e,d.openft k = some p ∧ d.fdtes p = some e ∧ e.type = .pipe

-- What a process has of pipes others have too.
def Shares (d : Descs) (i : Fin pcbSize) : Prop :=
  ∀ k,d.PipeAt k → uses (d.fdt i) (k.val : Int) = 0 ∨ uses (d.fdt i) (k.val : Int) < d.refs k

section Closed
variable {d d' : Descs} {i : Fin pcbSize} {fd : Fin fdtSize}

theorem Shares.slot (shares : d.Shares i) {k : Fin openSize} (slot : d.fdt i fd = (k.val : Int)) (pipe : d.PipeAt k) :
    1 < d.refs k := by
  have mine : 0 < uses (d.fdt i) (k.val : Int) := uses_pos.mpr ⟨fd,slot⟩
  have others := shares k pipe
  omega

-- What stays when a descriptor is closed.
structure Closed (d d' : Descs) (i : Fin pcbSize) (fd : Fin fdtSize) : Prop where
  counted : d'.Counted
  live : d'.live = d.live
  other : ∀ j,j ≠ i → d'.fdt j = d.fdt j
  gone : d'.fdt i fd = -1
  rest : ∀ g,g ≠ fd → d'.fdt i g = d.fdt i g
  objects : Recounts d d'

theorem Recounts.pipes (recounts : Recounts d d') {k : Fin openSize} (pipe : d'.PipeAt k) : d.PipeAt k := by
  obtain ⟨p,e',entry,object,type⟩ := pipe
  obtain ⟨entry',e,object',same⟩ := recounts k p e' entry object
  rw [same] at type
  exact ⟨p,e,entry',object',type⟩

theorem Closes.closed (counted : d.Counted) (lives : d.live i = true) (closes : Closes d d' i fd)
    (shared : ∀ k,d.fdt i fd = (k.val : Int) → d.PipeAt k → 1 < d.refs k) : Closed d d' i fd := by
  cases closes with
  | nothing free same =>
      subst same
      exact ⟨counted,rfl,fun _ _ => rfl,free,fun _ _ => rfl,.refl _⟩
  | @less k p e drop openft stays more =>
      obtain ⟨e',there,holds⟩ := counted.object k p drop.entry
      cases drop.object.symm.trans there
      have next : e.type ≠ .uart → 1 < d.refs k := by
        intro kind
        have exact := holds.exact kind
        have many := more kind
        omega
      refine ⟨counted.less lives drop openft stays next,drop.live,drop.other,drop.set,drop.rest,?_⟩
      intro l q o entry object
      rw [openft] at entry
      by_cases mine : q = p
      · subst mine
        cases stays.symm.trans object
        exact ⟨entry,e,drop.object,rfl⟩
      · rw [drop.objects q mine] at object
        exact ⟨entry,o,object,rfl⟩
  | @last k p e drop file few openft =>
      obtain ⟨e',there,holds⟩ := counted.object k p drop.entry
      cases drop.object.symm.trans there
      have one : d.refs k = 1 := by
        have kind : e.type ≠ .uart := by rw [file]; decide
        have exact := holds.exact kind
        have used := holds.used kind
        omega
      refine ⟨counted.last lives drop openft one,drop.live,drop.other,drop.set,drop.rest,?_⟩
      intro l q o entry object
      have away : l ≠ k := by
        rintro rfl
        rw [openft,put_self] at entry
        cases entry
      rw [openft,put_other _ _ away] at entry
      have mine : q ≠ p := fun same => away (counted.apart l k p (same ▸ entry) drop.entry)
      rw [drop.objects q mine] at object
      exact ⟨entry,o,object,rfl⟩
  | @torn k p e slot entry object pipe few =>
      obtain ⟨e',there,holds⟩ := counted.object k p entry
      cases object.symm.trans there
      have exact := holds.exact (by rw [pipe]; decide)
      have many := shared k slot ⟨p,e,entry,object,pipe⟩
      omega
  | @kern k p e entry object kern =>
      obtain ⟨e',there,holds⟩ := counted.object k p entry
      cases object.symm.trans there
      exact absurd kern holds.kind

theorem Closed.shares (closed : Closed d d' i fd) (lives : d.live i = true) (shares : d.Shares i) : d'.Shares i := by
  intro k pipe
  have change := count_change (f := d.fdt) (g := d'.fdt) lives (fun j _ away => closed.other j away) (k.val : Int)
  have same : d'.refs k = count d.live d'.fdt (k.val : Int) := by
    unfold refs
    rw [closed.live]
  have old : d.refs k = count d.live d.fdt (k.val : Int) := rfl
  have less := uses_change closed.rest (k.val : Int)
  rw [closed.gone,if_neg (show ¬ ((-1 : Int) = (k.val : Int)) by omega)] at less
  rcases shares k (closed.objects.pipes pipe) with none | some
  · left
    omega
  · right
    omega

end Closed
end Descs

section Ends
variable {m m' : Machine}

theorem put_put {n : Nat} {α : Type} (table : Fin n → α) (i : Fin n) (x y : α) : put (put table i x) i y = put table i y := by
  funext j
  by_cases here : j = i
  · rw [here,put_self,put_self]
  · rw [put_other _ _ here,put_other _ _ here,put_other _ _ here]

theorem withFd_fdt (m : Machine) (fd : Fin fdtSize) (i : Int) :
    (m.withFd fd i).descs.fdt = put m.descs.fdt m.current (put (m.pcb m.current).fdt fd i) := by
  funext j
  by_cases here : j = m.current
  · rw [here,put_self]
    exact withFd_self m fd i
  · rw [put_other _ _ here]
    exact congrArg Pcb.fdt (withFd_other m fd i here)

theorem dropped {d : Descs} {fd : Fin fdtSize} {k : Fin openSize} {p : UInt32} {e : Fdte} (live : d.live = m.descs.live)
    (fdt : d.fdt = put m.descs.fdt m.current (put (m.pcb m.current).fdt fd (-1))) (slot : (m.pcb m.current).fdt fd = (k : Nat))
    (entry : m.openft k = some p) (object : m.heap.fdtes p = some e) (objects : ∀ q,q ≠ p → d.fdtes q = m.heap.fdtes q)
    (pipes : d.pipes = m.pipes) : Descs.Drop m.descs d m.current fd k p e := by
  refine ⟨live,slot,?_,fun j away => ?_,fun g away => ?_,entry,object,objects,pipes⟩
  · rw [fdt,put_self,put_self]
  · rw [fdt,put_other _ _ away]
  · rw [fdt,put_self,put_other _ _ away]
    rfl

theorem closeSlot_ends {fd : Fin fdtSize} {r : Bool} (run : (closeSlot fd).Ends m r m') :
    Descs.Closes m.descs m'.descs m.current fd ∧ m'.current = m.current := by
  obtain ⟨i,_,found,run⟩ := ends_bind.mp run
  obtain ⟨⟨fd',this,slot⟩,rfl⟩ := fdtAt_ends.mp found
  obtain rfl : fd = fd' := Fin.ext (Int.ofNat.inj this)
  rcases ends_ite.mp run with ⟨free,run⟩ | ⟨used,run⟩
  · obtain ⟨rfl,rfl⟩ := ends_pure.mp run
    exact ⟨.nothing (slot.trans free) rfl,rfl⟩
  obtain ⟨_,_,set,run⟩ := ends_bind.mp run
  cases setFdt_ends.mp set
  have fdt := withFd_fdt m fd (-1)
  obtain ⟨o,_,looked,run⟩ := ends_bind.mp run
  obtain ⟨⟨k,here,entry⟩,rfl⟩ := openftAt_ends.mp looked
  obtain ⟨⟨p,e⟩,_,held,run⟩ := ends_bind.mp run
  obtain ⟨rfl,object,rfl⟩ := deref_ends.mp held
  dsimp only at run object
  obtain ⟨_,t,less,run⟩ := ends_bind.mp run
  have slot : (m.pcb m.current).fdt fd = (k : Nat) := slot.trans here
  have stays : t.descs.fdtes p = some {e with openCount := e.openCount - 1} := by
    cases ends_update.mp less
    exact if_pos rfl
  have drop : Descs.Drop m.descs t.descs m.current fd k p e := by
    cases ends_update.mp less
    exact dropped rfl fdt slot entry object (fun q away => if_neg away) rfl
  have table : t.openft = m.openft ∧ t.current = m.current := by
    cases ends_update.mp less
    exact ⟨rfl,rfl⟩
  rcases ends_ite.mp run with ⟨many,run⟩ | ⟨few,run⟩
  · obtain ⟨rfl,rfl⟩ := ends_pure.mp run
    refine ⟨.less drop table.1 stays fun _ => ?_,table.2⟩
    change e.openCount - 1 > 0 at many
    omega
  have few : e.openCount ≤ 1 := by
    change ¬ e.openCount - 1 > 0 at few
    omega
  unfold dropFdte at run
  dsimp only at run
  split at run
  case h_1 pipe =>
    have calm : Calm (do
        let other ← openftAt e.cursor.toNat
        freeFdte other
        pure true) := keeps_bind (calmFrame.openftAt _) fun _ => keeps_bind (calmFrame.freeFdte _) fun _ => keeps_pure
    exact ⟨.torn slot entry object pipe few,(congrArg Procs.current (calm.same run)).trans table.2⟩
  case h_2 uart =>
    obtain ⟨rfl,rfl⟩ := ends_pure.mp run
    exact ⟨.less drop table.1 stays fun kind => absurd uart kind,table.2⟩
  case h_3 file =>
    obtain ⟨_,u,freed,run⟩ := ends_bind.mp run
    obtain ⟨⟨q,o⟩,_,held,cleared⟩ := ends_bind.mp freed
    obtain ⟨same,_,rfl⟩ := deref_ends.mp held
    cases same
    cases ends_update.mp cleared
    obtain ⟨l,_,found,run⟩ := ends_bind.mp run
    obtain ⟨index,rfl⟩ := slot_ends.mp found
    have this : l = k := Fin.ext (Int.ofNat.inj (index.symm.trans here))
    subst this
    obtain ⟨_,_,closed,run⟩ := ends_bind.mp run
    cases ends_update.mp closed
    obtain ⟨_,_,set,run⟩ := ends_bind.mp run
    cases setFdt_ends.mp set
    obtain ⟨rfl,rfl⟩ := ends_pure.mp run
    cases ends_update.mp less
    refine ⟨.last (dropped rfl ?_ slot entry object (fun q' away => ?_) rfl) file few rfl,rfl⟩
    · refine (withFd_fdt ..).trans ?_
      show put (m.withFd fd (-1)).descs.fdt m.current (put ((m.withFd fd (-1)).pcb m.current).fdt fd (-1)) = _
      rw [fdt,withFd_self,put_put,put_put]
    · exact (if_neg away).trans (if_neg away)
  case h_4 kern =>
    obtain ⟨rfl,rfl⟩ := ends_pure.mp run
    exact ⟨.kern entry object kern,table.2⟩

theorem doClose_slot (fd : Fin fdtSize) : doClose fd.val = closeSlot fd := by
  unfold doClose
  rw [dif_pos (show ((fd.val : Int)).toNat < fdtSize from fd.isLt),if_pos (Int.natCast_nonneg _)]
  rfl

theorem closeSlot_shares (counted : m.descs.Counted) (lives : m.descs.live m.current = true) (shares : m.descs.Shares m.current)
    {fd : Fin fdtSize} {r : Bool} (run : (closeSlot fd).Ends m r m') :
    Descs.Closed m.descs m'.descs m.current fd ∧ m'.current = m.current ∧ m'.descs.Shares m'.current := by
  obtain ⟨closes,current⟩ := closeSlot_ends run
  have closed := closes.closed counted lives fun k => shares.slot
  refine ⟨closed,current,?_⟩
  rw [current]
  exact closed.shares lives shares

-- The running process closes what it has in these slots.
structure Emptied (m m' : Machine) (fds : List (Fin fdtSize)) : Prop where
  counted : m'.descs.Counted
  current : m'.current = m.current
  live : m'.descs.live = m.descs.live
  other : ∀ j,j ≠ m.current → m'.descs.fdt j = m.descs.fdt j
  gone : ∀ fd,fd ∈ fds ∨ m.descs.fdt m.current fd = -1 → m'.descs.fdt m.current fd = -1
  objects : Descs.Recounts m.descs m'.descs

theorem closeAll_ends {fds : List (Fin fdtSize)} (counted : m.descs.Counted) (lives : m.descs.live m.current = true)
    (shares : m.descs.Shares m.current) (run : (closeAll fds).Ends m () m') : Emptied m m' fds := by
  induction fds generalizing m with
  | nil =>
      obtain ⟨_,rfl⟩ := ends_pure.mp run
      exact ⟨counted,rfl,rfl,fun _ _ => rfl,fun fd none => none.resolve_left List.not_mem_nil,.refl _⟩
  | cons fd rest ih =>
      obtain ⟨_,_,now,run⟩ := ends_bind.mp run
      obtain ⟨rfl,rfl⟩ := ends_read.mp now
      rcases ends_ite.mp run with ⟨used,run⟩ | ⟨free,run⟩
      · obtain ⟨_,t,done,run⟩ := ends_bind.mp run
        rw [doClose_slot] at done
        obtain ⟨closed,current,shares'⟩ := closeSlot_shares counted lives shares done
        have after := ih closed.counted (by rw [current,closed.live]; exact lives) shares' run
        rw [← current] at closed
        refine ⟨after.counted,after.current.trans current,after.live.trans closed.live,fun j away => ?_,fun g gone => ?_,
          closed.objects.trans after.objects⟩
        · rw [after.other j (by rw [current]; exact away)]
          exact closed.other j (by rw [current]; exact away)
        · rw [← current]
          refine after.gone g ?_
          by_cases this : g = fd
          · exact .inr (this ▸ closed.gone)
          · rcases gone with member | none
            · exact .inl ((List.mem_cons.mp member).resolve_left this)
            · rw [← current] at none
              exact .inr ((closed.rest g this).trans none)
      · have after := ih counted lives shares run
        refine ⟨after.counted,after.current,after.live,after.other,fun g gone => after.gone g ?_,after.objects⟩
        rcases gone with member | none
        · rcases List.mem_cons.mp member with rfl | later
          · exact .inr (not_not.mp free)
          · exact .inl later
        · exact .inr none

end Ends
end ArchiveOs.Kernel
