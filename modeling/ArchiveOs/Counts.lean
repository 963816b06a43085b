import ArchiveOs.Closings

-- Reference counts in every run.
namespace ArchiveOs.Kernel
open Fs2
open References
open Prog

section Pipes
variable {m m' : Machine}

theorem mallocPipe_asks {p : Option Pipe} (run : mallocPipe.Ends m p m') : m' = m.asksHeap := by
  unfold mallocPipe at run
  simp only [ends_bind,ask_ends,ends_read,ends_pure] at run
  obtain ⟨_,_,⟨rfl,rfl⟩,_,_,⟨rfl,rfl⟩,_,rfl⟩ := run
  rfl

-- An end of a pipe.
def pipeEnd (e : Fdte) (pindex : Fin pcbSize) (mode : Fmode) (other : Fin openSize) : Fdte :=
  {e with type := .pipe,id := UInt32.ofNat pindex,openCount := 1,mode,cursor := UInt32.ofNat other}

-- How do_pipe ends, once it has its places.
inductive Pipes (m m' : Machine) (rindP windP : Fin fdtSize) (pindex : Fin pcbSize) (rindG windG : Fin openSize) : Prop where
  | failed : m'.pcb = m.pcb → m'.openft = m.openft → (∀ p e,m.heap.fdtes p = some e → m'.heap.fdtes p = some e) →
      (∀ id,id ≠ pindex → m'.pipes id = m.pipes id) → Pipes m m' rindP windP pindex rindG windG
  | made {p q : UInt32} {e e' : Fdte} {pipe : Pipe} : m.heap.fdtes p = none → m.heap.fdtes q = none → p ≠ q →
      m'.pcb = ((m.withFd rindP rindG).withFd windP windG).pcb →
      m'.openft = put (put m.openft rindG (some p)) windG (some q) →
      m'.heap.fdtes = (fun r => if r = q then some (pipeEnd e' pindex .w rindG) else
        if r = p then some (pipeEnd e pindex .r windG) else m.heap.fdtes r) →
      m'.pipes = put m.pipes pindex (some pipe) → Pipes m m' rindP windP pindex rindG windG

theorem makePipe_ends {pipefds : UInt32} {rindP windP : Fin fdtSize} {pindex : Fin pcbSize} {rindG windG : Fin openSize} {r : Bool}
    (run : (makePipe pipefds rindP windP pindex rindG windG).Ends m r m') :
    Pipes m m' rindP windP pindex rindG windG := by
  obtain ⟨pipe,t1,asked,run⟩ := ends_bind.mp run
  have first := mallocPipe_asks asked
  subst first
  obtain ⟨_,t2,set,run⟩ := ends_bind.mp run
  cases ends_update.mp set
  have others : ∀ x id,id ≠ pindex → put m.pipes pindex x id = m.pipes id := fun _ id away => put_other _ _ away
  cases pipe with
  | none =>
      obtain ⟨_,rfl⟩ := ends_pure.mp run
      exact .failed rfl rfl (fun _ _ there => there) (others _)
  | some pipe =>
      obtain ⟨rend,t3,first,run⟩ := ends_bind.mp run
      cases rend with
      | none =>
          obtain ⟨_,rfl⟩ := ends_pure.mp run
          rw [mallocFdte_none first]
          exact .failed rfl rfl (fun _ _ there => there) (others _)
      | some p =>
          obtain ⟨useful,rfl,rfl⟩ := mallocFdte_allots.mp first
          obtain ⟨wend,t4,second,run⟩ := ends_bind.mp run
          have fresh : m.heap.fdtes (m.heap.answer (m.heap.asked + 1)) = none := by
            rw [← Option.not_isSome_iff_eq_none]
            exact fun some => useful (.inr some)
          have kept : ∀ {p : UInt32} {e e' : Fdte} {q : UInt32},m.heap.fdtes q = none → m.heap.fdtes p = some e →
              (if p = q then some e' else m.heap.fdtes p) = some e := by
            intro p e e' q none there
            rw [if_neg,there]
            rintro rfl
            cases none.symm.trans there
          cases wend with
          | none =>
              obtain ⟨_,rfl⟩ := ends_pure.mp run
              rw [mallocFdte_none second]
              exact .failed rfl rfl (fun _ _ there => kept fresh there) (others _)
          | some q =>
              obtain ⟨useful',rfl,rfl⟩ := mallocFdte_allots.mp second
              obtain ⟨_,_,set,run⟩ := ends_bind.mp run
              cases ends_update.mp set
              obtain ⟨⟨_,e⟩,_,held,run⟩ := ends_bind.mp run
              obtain ⟨same,_,rfl⟩ := deref_ends.mp held
              cases same
              obtain ⟨⟨_,e'⟩,_,held',run⟩ := ends_bind.mp run
              obtain ⟨same,_,rfl⟩ := deref_ends.mp held'
              cases same
              obtain ⟨_,_,set1,run⟩ := ends_bind.mp run
              cases ends_update.mp set1
              obtain ⟨_,_,set2,run⟩ := ends_bind.mp run
              cases ends_update.mp set2
              obtain ⟨_,_,set3,run⟩ := ends_bind.mp run
              cases ends_update.mp set3
              obtain ⟨_,_,set4,run⟩ := ends_bind.mp run
              cases ends_update.mp set4
              obtain ⟨_,_,set5,run⟩ := ends_bind.mp run
              cases setFdt_ends.mp set5
              obtain ⟨_,_,set6,run⟩ := ends_bind.mp run
              cases setFdt_ends.mp set6
              obtain ⟨_,_,set7,run⟩ := ends_bind.mp run
              cases ends_update.mp set7
              obtain ⟨_,_,set8,run⟩ := ends_bind.mp run
              cases ends_update.mp set8
              obtain ⟨_,rfl⟩ := ends_pure.mp run
              have fresh' : (if m.heap.answer (m.heap.asked + 1 + 1) = m.heap.answer (m.heap.asked + 1) then
                  some (m.heap.junk (m.heap.asked + 1)) else m.heap.fdtes (m.heap.answer (m.heap.asked + 1 + 1))) = none := by
                rw [← Option.not_isSome_iff_eq_none]
                exact fun some => useful' (.inr some)
              have away : m.heap.answer (m.heap.asked + 1 + 1) ≠ m.heap.answer (m.heap.asked + 1) := by
                intro same
                rw [if_pos same] at fresh'
                cases fresh'
              rw [if_neg away] at fresh'
              refine @Pipes.made _ _ _ _ _ _ _ _ _ e e' _ fresh fresh' away.symm rfl rfl ?_ (put_put ..)
              funext r
              by_cases last : r = m.heap.answer (m.heap.asked + 1 + 1)
              · exact (if_pos last).trans (if_pos last).symm
              by_cases this : r = m.heap.answer (m.heap.asked + 1)
              · exact (if_neg last).trans ((if_pos this).trans ((if_neg last).trans (if_pos this)).symm)
              · exact (if_neg last).trans ((if_neg this).trans ((if_neg last).trans ((if_neg this).trans
                  ((if_neg last).trans (if_neg this)).symm)))

theorem pipeEnd_id (e : Fdte) (pindex : Fin pcbSize) (mode : Fmode) (other : Fin openSize) :
    (pipeEnd e pindex mode other).id.toNat = pindex.val := by
  show (UInt32.ofNat pindex).toNat = pindex.val
  rw [UInt32.toNat_ofNat']
  exact Nat.mod_eq_of_lt (lt_trans pindex.isLt (by decide))

theorem Pipes.counted {rindP windP : Fin fdtSize} {pindex : Fin pcbSize} {rindG windG : Fin openSize} (counted : m.descs.Counted)
    (lives : m.descs.live m.current = true) (live : m'.descs.live = m.descs.live) (free : m.pipes pindex = none)
    (rind : (m.pcb m.current).fdt rindP = -1) (wind : (m.pcb m.current).fdt windP = -1) (two : rindP ≠ windP)
    (rentry : m.openft rindG = none) (wentry : m.openft windG = none) (entries : rindG ≠ windG)
    (pipes : Pipes m m' rindP windP pindex rindG windG) : m'.descs.Counted := by
  have others : ∀ id,(m.pipes id).isSome → id ≠ pindex := by
    rintro id some rfl
    rw [free] at some
    cases some
  cases pipes with
  | failed pcb openft objects pipes =>
      refine counted.keep ⟨live,?_,openft,fun p e there => ?_,fun id some => ?_⟩
      · exact congrArg (fun (t : Fin pcbSize → Pcb) i => (t i).fdt) pcb
      · exact ⟨e,objects p e there,rfl,rfl,rfl⟩
      · show (m'.pipes id).isSome
        rw [pipes id (others id some)]
        exact some
  | @made p q e e' pipe fresh fresh' away pcb openft objects pipes =>
      have placed : ∀ id,(m.pipes id).isSome → (m'.pipes id).isSome := by
        intro id some
        rw [pipes,put_other _ _ (others id some)]
        exact some
      have here : ∃ id : Fin pcbSize,pindex.val = id.val ∧ (m'.pipes id).isSome :=
        ⟨pindex,rfl,by rw [pipes,put_self]; rfl⟩
      have begun : ({m.descs with pipes := m'.pipes} : Descs).Counted :=
        counted.keep ⟨rfl,rfl,rfl,fun _ e there => ⟨e,there,rfl,rfl,rfl⟩,placed⟩
      have half := begun.enter lives (Descs.entered_enter (pipeEnd e pindex .r windG) rind rentry fresh) rfl (.inr rfl) fun _ => by
        rw [pipeEnd_id]
        exact here
      have fdt : m'.descs.fdt = put (put m.descs.fdt m.current (put (m.descs.fdt m.current) rindP rindG.val)) m.current
          (put (put (m.descs.fdt m.current) rindP rindG.val) windP windG.val) := by
        have twice : ((m.withFd rindP rindG).withFd windP windG).descs.fdt = put (m.withFd rindP rindG).descs.fdt m.current
            (put ((m.withFd rindP rindG).pcb m.current).fdt windP windG) := withFd_fdt ..
        rw [withFd_self,withFd_fdt m rindP rindG] at twice
        refine Eq.trans ?_ twice
        funext i
        exact congrArg (fun t : Fin pcbSize → Pcb => (t i).fdt) pcb
      refine @Descs.Counted.enter _ _ half _ windP windG q (pipeEnd e' pindex .w rindG) lives
        ⟨live,?_,?_,fun j other => ?_,fun g rest => ?_,?_,openft,?_,?_,fun r other => ?_,fun _ some => some⟩ rfl (.inr rfl) fun _ => by
          rw [pipeEnd_id]
          exact here
      · refine (congrFun (put_self ..) windP).trans ?_
        rw [put_other _ _ two.symm]
        exact wind
      · rw [fdt,put_self,put_self]
      · rw [fdt]
        exact put_other _ _ other
      · rw [fdt,put_self,put_other _ _ rest]
        exact congrFun (put_self ..).symm g
      · exact (put_other _ _ entries.symm).trans wentry
      · exact (if_neg away.symm).trans fresh'
      · show m'.heap.fdtes q = _
        rw [objects]
        exact if_pos rfl
      · show m'.heap.fdtes r = _
        rw [objects]
        exact if_neg other

theorem Pipes.settles {rindP windP : Fin fdtSize} {pindex : Fin pcbSize} {rindG windG : Fin openSize} (counted : m.descs.Counted)
    (pipes : Pipes m m' rindP windP pindex rindG windG) : Descs.Settles m.descs m'.descs := by
  rintro r o ⟨⟨k,entry⟩,object,file,may⟩
  cases pipes with
  | failed _ openft objects _ =>
      have entry' : m.openft k = some r := by
        rw [← openft]
        exact entry
      obtain ⟨e,there,_⟩ := counted.object k r entry'
      obtain rfl : e = o := Option.some.inj ((objects r e there).symm.trans object)
      exact ⟨e,⟨⟨k,entry'⟩,there,file,may⟩,rfl,rfl⟩
  | @made p q e e' pipe _ _ _ _ openft objects _ =>
      change m'.openft k = some r at entry
      change m'.heap.fdtes r = some o at object
      rw [objects] at object
      dsimp only at object
      by_cases last : r = q
      · rw [if_pos last] at object
        cases object
        cases file
      rw [if_neg last] at object
      by_cases this : r = p
      · rw [if_pos this] at object
        cases object
        cases file
      rw [if_neg this] at object
      rw [openft] at entry
      have wind : k ≠ windG := by
        rintro rfl
        rw [put_self] at entry
        exact last (Option.some.inj entry).symm
      rw [put_other _ _ wind] at entry
      have rind : k ≠ rindG := by
        rintro rfl
        rw [put_self] at entry
        exact this (Option.some.inj entry).symm
      rw [put_other _ _ rind] at entry
      exact ⟨o,⟨⟨k,entry⟩,object,file,may⟩,rfl,rfl⟩

end Pipes

-- Calls that leave the descriptors as they are.
abbrev Still {α : Type} (p : Sys α) : Prop := Keeps Machine.descs p

section Calls
variable {m m' : Machine}

theorem descs_of (side : m'.fileSide = m.fileSide) (alloc : m'.pcballoc = m.pcballoc) : m'.descs = m.descs := by
  have pipes : m'.pipes = m.pipes := congrArg FileSide.pipes side
  have fdtes : m'.heap.fdtes = m.heap.fdtes := congrArg FileSide.fdtes side
  have openft : m'.openft = m.openft := congrArg FileSide.openft side
  have fdt : (fun i => (m'.pcb i).fdt) = fun i => (m.pcb i).fdt := congrArg FileSide.fdt side
  unfold Machine.descs
  rw [pipes,fdtes,openft,fdt,alloc]

theorem fs_still {α : Type} (f : Mount → Option (Mount × α)) : Still (fs f) := keeps_lift fun _ _ => rfl

theorem poke_still (start : UInt32) (bytes : List UInt8) : Still (poke start bytes) := keeps_update fun _ => rfl

theorem setGpr_still (n : Fin 13) (w : UInt32) : Still (setGpr n w) := keeps_update fun _ => rfl

theorem absPath_still (path : UInt32) : Still (absPath path) where
  same run := by rw [(absPath_ends.mp run).2.2]

theorem path_still {g : Path → Mount → Option (Mount × Bool)} : Still (do
    let path ← absPath (← gpr 0)
    let yes ← fs (g path)
    setGpr 0 (ofBool yes)) := by
  refine keeps_bind keeps_read fun _ => keeps_bind (absPath_still _) fun _ => ?_
  exact keeps_bind (fs_still _) fun _ => setGpr_still ..

theorem setPcb_descs (m : Machine) (i : Fin pcbSize) {f : Pcb → Pcb} (fdt : ∀ p,(f p).fdt = p.fdt) :
    (m.setPcb i f).descs = m.descs := by
  have same : (m.setPcb i f).descs.fdt = m.descs.fdt := funext fun j => setPcb_fdt m i j fdt
  exact congrArg (fun t => {m.descs with fdt := t}) same

theorem setRunning_still {f : Pcb → Pcb} (fdt : ∀ p,(f p).fdt = p.fdt) : Still (setRunning f) :=
  keeps_bind keeps_read fun i => keeps_update fun m => setPcb_descs m i fdt

theorem svcCd_still : Still svcCd := by
  have move : ∀ path : UInt32,Still (doCd path) := by
    intro path
    refine keeps_bind (absPath_still _) fun _ => keeps_bind (fs_still _) fun _ => keeps_ite (fun _ => ?_) fun _ => keeps_pure
    refine keeps_bind (keeps_bind keeps_note fun _ => keeps_ite (fun _ => keeps_stop) fun _ => keeps_pure) fun _ => ?_
    exact keeps_bind (setRunning_still fun _ => rfl) fun _ => keeps_pure
  exact keeps_bind keeps_read fun _ => keeps_bind (move _) fun _ => setGpr_still ..

theorem svcLs_still : Still svcLs := by
  refine keeps_bind keeps_read fun _ => keeps_bind (absPath_still _) fun _ => keeps_bind keeps_read fun _ => ?_
  refine keeps_bind (fs_still _) fun ⟨_,_⟩ => keeps_bind keeps_read fun _ => keeps_bind (poke_still ..) fun _ => ?_
  exact setGpr_still ..

theorem setPipe_alike {id : Fin pcbSize} {pipe : Pipe} (run : (setPipe id (some pipe)).Ends m () m') :
    Descs.SameRefs m.descs m'.descs := by
  cases ends_update.mp run
  refine ⟨rfl,rfl,rfl,fun _ e there => ⟨e,there,rfl,rfl,rfl⟩,fun i some => ?_⟩
  show (put m.pipes id _ i).isSome
  by_cases here : i = id
  · rw [here,put_self]
    rfl
  · rw [put_other _ _ here]
    exact some

theorem cursor_alike {p : UInt32} {fde : Fdte} {n r : Int} {c : UInt32} (object : m.heap.fdtes p = some fde) (run : Ends (do
    if n ≥ 0 then setFdte p (some {fde with cursor := c}) else pure ()
    pure n) m r m') : Descs.SameRefs m.descs m'.descs := by
  rcases ends_ite.mp run with ⟨_,run⟩ | ⟨_,run⟩
  · obtain ⟨_,_,set,run⟩ := ends_bind.mp run
    cases ends_update.mp set
    obtain ⟨_,rfl⟩ := ends_pure.mp run
    refine ⟨rfl,rfl,rfl,fun q e there => ?_,fun _ some => some⟩
    by_cases here : q = p
    · subst here
      cases object.symm.trans there
      exact ⟨_,if_pos rfl,rfl,rfl,rfl⟩
    · exact ⟨e,(if_neg here).trans there,rfl,rfl,rfl⟩
  · obtain ⟨_,rfl⟩ := ends_pure.mp run
    exact .refl _

theorem writeEntry_alike {p : UInt32} {fde : Fdte} {src nchars : UInt32} {r : Int} (object : m.heap.fdtes p = some fde)
    (run : (writeEntry p fde src nchars).Ends m r m') : Descs.SameRefs m.descs m'.descs := by
  obtain ⟨ram,_,now,run⟩ := ends_bind.mp run
  obtain ⟨rfl,rfl⟩ := ends_read.mp now
  split at run
  · obtain ⟨_,rfl⟩ := ends_pure.mp run
    exact .refl _
  · obtain ⟨id,_,found,run⟩ := ends_bind.mp run
    obtain ⟨_,rfl⟩ := slot_ends.mp found
    obtain ⟨pipe,_,now,run⟩ := ends_bind.mp run
    obtain ⟨rfl,rfl⟩ := ends_read.mp now
    split at run
    · exact absurd run ends_stop
    · obtain ⟨_,t,set,run⟩ := ends_bind.mp run
      obtain ⟨_,rfl⟩ := ends_pure.mp run
      exact setPipe_alike set
  · obtain ⟨n,_,wrote,run⟩ := ends_bind.mp run
    obtain ⟨s,_,rfl⟩ := ends_lift.mp wrote
    exact cursor_alike (m := {m with fs := s}) object run
  · exact absurd run ends_stop

theorem readEntry_alike {p : UInt32} {fde : Fdte} {out nchars : UInt32} {r : Int} (object : m.heap.fdtes p = some fde)
    (run : (readEntry p fde out nchars).Ends m r m') : Descs.SameRefs m.descs m'.descs := by
  unfold readEntry at run
  split at run
  · have still : Still (do
        if 0 < toInt nchars then poke out [0] else pure ()
        pure (0 : Int)) := keeps_ite (fun _ => keeps_bind (poke_still ..) fun _ => keeps_pure) fun _ => keeps_pure
    rw [still.same run]
    exact .refl _
  · obtain ⟨id,_,found,run⟩ := ends_bind.mp run
    obtain ⟨_,rfl⟩ := slot_ends.mp found
    obtain ⟨pipe,_,now,run⟩ := ends_bind.mp run
    obtain ⟨rfl,rfl⟩ := ends_read.mp now
    split at run
    · exact absurd run ends_stop
    · obtain ⟨_,t,set,run⟩ := ends_bind.mp run
      obtain ⟨_,u,poked,run⟩ := ends_bind.mp run
      obtain ⟨_,rfl⟩ := ends_pure.mp run
      rw [(poke_still ..).same poked]
      exact setPipe_alike set
  · obtain ⟨⟨n,bytes⟩,_,seen,run⟩ := ends_bind.mp run
    obtain ⟨s,_,rfl⟩ := ends_lift.mp seen
    obtain ⟨_,_,poked,run⟩ := ends_bind.mp run
    cases ends_update.mp poked
    exact cursor_alike (m := {m with fs := s,ram := _}) object run
  · exact absurd run ends_stop

theorem svcWrite_alike (run : svcWrite.Ends m () m') : Descs.SameRefs m.descs m'.descs := by
  unfold svcWrite at run
  simp only [ends_bind,gpr_ends] at run
  obtain ⟨_,_,⟨rfl,rfl⟩,_,_,⟨rfl,rfl⟩,_,_,⟨rfl,rfl⟩,n,t,wrote,run⟩ := run
  rw [(setGpr_still ..).same run]
  rw [doWrite_object] at wrote
  rcases object_ends wrote with ⟨_,rfl⟩ | ⟨p,e,_,_,object,wrote⟩
  · exact .refl _
  · rcases ends_ite.mp wrote with ⟨_,wrote⟩ | ⟨_,wrote⟩
    · exact writeEntry_alike object wrote
    · obtain ⟨_,rfl⟩ := ends_pure.mp wrote
      exact .refl _

theorem svcRead_alike (run : svcRead.Ends m () m') : Descs.SameRefs m.descs m'.descs := by
  unfold svcRead at run
  simp only [ends_bind,gpr_ends] at run
  obtain ⟨_,_,⟨rfl,rfl⟩,_,_,⟨rfl,rfl⟩,_,_,⟨rfl,rfl⟩,n,t,seen,run⟩ := run
  rw [(setGpr_still ..).same run]
  rw [doRead_object] at seen
  rcases object_ends seen with ⟨_,rfl⟩ | ⟨p,e,_,_,object,seen⟩
  · exact .refl _
  · rcases ends_ite.mp seen with ⟨_,seen⟩ | ⟨_,seen⟩
    · exact readEntry_alike object seen
    · obtain ⟨_,rfl⟩ := ends_pure.mp seen
      exact .refl _

theorem svcFdSwap_counted (counted : m.descs.Counted) (run : svcFdSwap.Ends m () m') : m'.descs.Counted := by
  unfold svcFdSwap at run
  simp only [ends_bind,gpr_ends] at run
  obtain ⟨_,_,⟨rfl,rfl⟩,_,_,⟨rfl,rfl⟩,run⟩ := run
  rcases ends_ite.mp run with ⟨_,run⟩ | ⟨_,run⟩
  · rw [(setGpr_still ..).same run]
    exact counted
  obtain ⟨t,_,one,run⟩ := ends_bind.mp run
  obtain ⟨⟨i,first,rfl⟩,rfl⟩ := fdtAt_ends.mp one
  obtain ⟨u,_,two,run⟩ := ends_bind.mp run
  obtain ⟨⟨j,second,rfl⟩,rfl⟩ := fdtAt_ends.mp two
  obtain ⟨i',_,again,run⟩ := ends_bind.mp run
  obtain ⟨same,rfl⟩ := slot_ends.mp again
  obtain rfl : i = i' := Fin.ext (Int.ofNat.inj (first.symm.trans same))
  obtain ⟨_,_,set,run⟩ := ends_bind.mp run
  cases setFdt_ends.mp set
  obtain ⟨j',_,again',run⟩ := ends_bind.mp run
  obtain ⟨same',rfl⟩ := slot_ends.mp again'
  obtain rfl : j = j' := Fin.ext (Int.ofNat.inj (second.symm.trans same'))
  obtain ⟨_,_,set',run⟩ := ends_bind.mp run
  cases setFdt_ends.mp set'
  rw [(setGpr_still ..).same run]
  have fdt : ((m.withFd i ((m.pcb m.current).fdt j)).withFd j ((m.pcb m.current).fdt i)).descs.fdt = put m.descs.fdt m.current
      (put (put (m.descs.fdt m.current) i (m.descs.fdt m.current j)) j (m.descs.fdt m.current i)) := by
    refine (withFd_fdt ..).trans ?_
    rw [withFd_fdt]
    show put (put _ m.current _) m.current (put ((m.withFd i _).pcb m.current).fdt j _) = _
    rw [withFd_self,put_put]
    rfl
  refine counted.permute (i := m.current) (Equiv.swap i j) rfl (fun fd => ?_) (fun k away => ?_) rfl rfl rfl
  · rw [fdt,put_self]
    by_cases last : fd = j
    · rw [last,put_self,Equiv.swap_apply_right]
    · rw [put_other _ _ last]
      by_cases this : fd = i
      · rw [this,put_self,Equiv.swap_apply_left]
      · rw [put_other _ _ this,Equiv.swap_apply_of_ne_of_ne this last]
  · rw [fdt,put_other _ _ away]

theorem svcClose_counted (counted : m.descs.Counted) (lives : m.descs.live m.current = true)
    (shared : ∀ fd : Fin fdtSize,toInt (m.ctx.gpr 0) = fd.val → ∀ k : Fin openSize,m.descs.fdt m.current fd = k.val →
      m.descs.PipeAt k → 1 < m.descs.refs k) (run : svcClose.Ends m () m') :
    m'.descs.Counted ∧ Descs.Recounts m.descs m'.descs := by
  obtain ⟨_,_,now,run⟩ := ends_bind.mp run
  obtain ⟨rfl,rfl⟩ := gpr_ends.mp now
  obtain ⟨done,t,ended,run⟩ := ends_bind.mp run
  rw [(setGpr_still ..).same run]
  unfold doClose at ended
  split at ended
  · rename_i bound
    rcases ends_ite.mp ended with ⟨pos,ended⟩ | ⟨_,ended⟩
    · have index : toInt (m.ctx.gpr 0) = ((⟨(toInt (m.ctx.gpr 0)).toNat,bound⟩ : Fin fdtSize).val : Int) :=
        (Int.toNat_of_nonneg pos).symm
      have closed := (closeSlot_ends ended).1.closed counted lives (shared _ index)
      exact ⟨closed.counted,closed.objects⟩
    · obtain ⟨_,rfl⟩ := ends_pure.mp ended
      exact ⟨counted,.refl _⟩
  · obtain ⟨_,rfl⟩ := ends_pure.mp ended
    exact ⟨counted,.refl _⟩

theorem svcPipe_counted (counted : m.descs.Counted) (lives : m.descs.live m.current = true) (alloc : m'.pcballoc = m.pcballoc)
    (run : svcPipe.Ends m () m') : m'.descs.Counted ∧ Descs.Settles m.descs m'.descs := by
  obtain ⟨_,_,now,run⟩ := ends_bind.mp run
  obtain ⟨rfl,rfl⟩ := gpr_ends.mp now
  obtain ⟨r,t,made,run⟩ := ends_bind.mp run
  obtain ⟨_,rfl⟩ := ends_pure.mp run
  have live : t.descs.live = m.descs.live := by
    show (fun i => alive t.pcballoc i) = fun i => alive m.pcballoc i
    rw [alloc]
  have nothing : ∀ {r},(pure false : Sys Bool).Ends m r t → t.descs.Counted ∧ Descs.Settles m.descs t.descs := by
    intro r ended
    obtain ⟨_,rfl⟩ := ends_pure.mp ended
    exact ⟨counted,(Descs.Recounts.refl _).settles⟩
  obtain ⟨_,_,now,made⟩ := ends_bind.mp made
  obtain ⟨rfl,rfl⟩ := ends_read.mp now
  dsimp only at made
  split at made
  · exact nothing made
  rename_i rindP rind
  split at made
  · exact nothing made
  rename_i windP wind
  obtain ⟨_,_,now,made⟩ := ends_bind.mp made
  obtain ⟨rfl,rfl⟩ := ends_read.mp now
  split at made
  · exact nothing made
  rename_i pindex free
  obtain ⟨_,_,now,made⟩ := ends_bind.mp made
  obtain ⟨rfl,rfl⟩ := ends_read.mp now
  split at made
  · exact nothing made
  rename_i rindG rentry
  split at made
  · exact nothing made
  rename_i windG wentry
  have two : rindP ≠ windP := by
    rintro rfl
    have later := (firstFrom_some wind).1
    omega
  have entries : rindG ≠ windG := by
    rintro rfl
    have later := (firstFrom_some wentry).1
    omega
  refine ⟨(makePipe_ends made).counted counted lives live (Option.isNone_iff_eq_none.mp (firstFrom_some free).2.1)
    (of_decide_eq_true (firstFrom_some rind).2.1) (of_decide_eq_true (firstFrom_some wind).2.1) two
    (Option.isNone_iff_eq_none.mp (firstFrom_some rentry).2.1) (Option.isNone_iff_eq_none.mp (firstFrom_some wentry).2.1) entries,
    (makePipe_ends made).settles counted⟩

theorem openable_sought {s s' : Mount} {a : Path} {flags : UInt8} {found : Bool} (openable : Openable s a flags)
    (sought : Sought s a flags s' found) : found = true := by
  obtain ⟨t,r,looked,here⟩ := openable
  obtain ⟨t',r',looked',made⟩ := sought
  cases looked.symm.trans looked'
  by_cases missing : r = false ∧ flags ≥ 4
  · rw [if_pos missing] at made
    rcases here with there | ⟨_,u,made'⟩
    · rw [missing.1] at there
      cases there
    · cases made.symm.trans made'
      rfl
  · rw [if_neg missing] at made
    rcases here with there | ⟨allowed,u,made'⟩
    · exact made.2.trans there
    · cases r
      · exact absurd ⟨rfl,allowed⟩ missing
      · exact made.2

theorem file_not_pipe {e : Fdte} {a : Path} {flags : UInt8} : (openedFile e a flags).type ≠ .pipe := by
  intro wrong
  cases (show Ftype.file = .pipe from wrong)

theorem svcOpen_counted (counted : m.descs.Counted) (lives : m.descs.live m.current = true) (alloc : m'.pcballoc = m.pcballoc)
    (opens : m.Fetches (m.ctx.gpr 1).toUInt8 → m.Copies (m.ctx.gpr 0) (m.ctx.gpr 1).toUInt8) (run : svcOpen.Ends m () m') :
    m'.descs.Counted := by
  have live : m'.descs.live = m.descs.live := by
    show (fun i => alive m'.pcballoc i) = fun i => alive m.pcballoc i
    rw [alloc]
  obtain ⟨opening,pipes⟩ := svcOpen_ends run
  cases opening with
  | denied _ _ _ pcb openft objects =>
      refine counted.keep ⟨live,?_,openft,fun p e there => ⟨e,?_,rfl,rfl,rfl⟩,fun id some => ?_⟩
      · exact congrArg (fun (t : Fin pcbSize → Pcb) i => (t i).fdt) pcb
      · exact (congrFun objects p).trans there
      · show (m'.pipes id).isSome
        rw [pipes]
        exact some
  | failed fetches _ sought _ poor =>
      obtain ⟨openable,room⟩ := opens fetches
      exact absurd (poor (openable_sought openable sought)) room
  | @given s k i p e fetches _ _ _ free pcb _ _ enters =>
      have fdt : m'.descs.fdt = put m.descs.fdt m.current (put (m.pcb m.current).fdt k i) := by
        rw [← withFd_fdt]
        exact congrArg (fun (t : Fin pcbSize → Pcb) i => (t i).fdt) pcb
      refine counted.enter (k := i) (p := p) (e := openedFile e (m.apath (m.ctx.gpr 0)) (m.ctx.gpr 1).toUInt8) lives
        ⟨live,free,?_,fun j other => ?_,fun g rest => ?_,enters.free,enters.table,enters.fresh,?_,fun q other => ?_,fun id some => ?_⟩ rfl (.inl rfl) fun wrong => absurd wrong file_not_pipe
      · rw [fdt,put_self,put_self]
      · rw [fdt,put_other _ _ other]
      · rw [fdt,put_self,put_other _ _ rest]
        rfl
      · exact (congrFun enters.object p).trans (if_pos rfl)
      · exact (congrFun enters.object q).trans (if_neg other)
      · show (m'.pipes id).isSome
        rw [pipes]
        exact some

theorem uses_finRange (fdt : Fin fdtSize → Int) (b : Int) : uses fdt b = (List.finRange fdtSize).countP fun fd => fdt fd = b := by
  unfold uses
  rw [List.countP_eq_length_filter]
  rfl

theorem references_uses (counted : m.descs.Counted) {k : Fin openSize} {p : UInt32} (entry : m.openft k = some p) :
    m.references (List.finRange fdtSize) p = (uses (m.descs.fdt m.current) (k.val : Int) : Nat) := by
  unfold Machine.references
  rw [uses_finRange]
  congr 1
  refine List.countP_congr fun fd _ => ?_
  rw [decide_eq_true_iff,decide_eq_true_iff]
  constructor
  · rintro ⟨_,leads⟩
    obtain ⟨l,there,entry'⟩ := leads_some.mp leads
    rw [counted.apart l k p entry' entry] at there
    exact there
  · intro here
    have slot : (m.pcb m.current).fdt fd = (k : Nat) := here
    exact ⟨by rw [slot]; omega,leads_some.mpr ⟨k,slot,entry⟩⟩

theorem doFork_counted (counted : m.descs.Counted) (lives : m.descs.live m.current = true)
    (memory : m.procs.firstFree ≠ none → m.heap.offers = true) (run : doFork.Ends m () m') :
    m'.descs.Counted ∧ Descs.Recounts m.descs m'.descs := by
  cases doFork_ends.mp run with
  | full none same =>
      rw [same]
      have still : (m.saved.answers (UInt32.ofInt (-1))).descs = m.descs :=
        @setPcb_descs m m.current (fun p => {p with ctx := m.ctx}) fun _ => rfl
      rw [still]
      exact ⟨counted,.refl _⟩
  | poor child some refuses _ =>
      have offers := memory (by rw [some]; exact Option.some_ne_none _)
      rw [offers] at refuses
      cases refuses
  | born child stack free offers given held same =>
      have new : m.descs.live child = false := Procs.firstFree_dead free
      have absent : child ∉ m.live := by
        intro wrong
        cases new.symm.trans (show m.descs.live child = true from wrong)
      have bears := @forked_bears m child stack lives absent
      rw [← same] at bears
      refine ⟨?_,fun k p e' entry object => ?_⟩
      swap
      · change m'.openft k = some p at entry
        change m'.heap.fdtes p = some e' at object
        rw [bears.openft] at entry
        rw [bears.counts p] at object
        obtain ⟨e,there,same'⟩ := Option.map_eq_some_iff.mp object
        exact ⟨entry,e,there,by rw [← same']⟩
      refine counted.join lives new (fun j => ?_) (fun j old => ?_) bears.fdt bears.openft (by rw [same]; rfl) fun k p e entry object => ?_
      · have both := Set.ext_iff.mp bears.live j
        rw [Set.mem_insert_iff] at both
        exact both.trans or_comm
      · by_cases this : j = m.current
        · obtain ⟨c,caller⟩ := bears.caller
          rw [this]
          exact (congrArg Pcb.fdt caller).trans rfl
        · exact congrArg Pcb.fdt (bears.others j old this)
      · have counts := bears.counts p
        rw [show m.heap.fdtes p = some e from object,Option.map_some,references_uses counted entry] at counts
        exact counts

theorem killed_counted (counted : m.descs.Counted) {n : Int} (side : m'.fileSide = m.fileSide)
    (left : m'.live = m.live \ {i | n = i.val}) (plain : ∀ i : Fin pcbSize,n = i.val → m.descs.live i = true →
      m.descs.Plain i) : m'.descs.Counted := by
  have fdt : m'.descs.fdt = m.descs.fdt := congrArg FileSide.fdt side
  have live : ∀ j,m'.descs.live j = true ↔ m.descs.live j = true ∧ n ≠ j.val := fun j => Set.ext_iff.mp left j
  by_cases some : ∃ i : Fin pcbSize,n = i.val ∧ m.descs.live i = true
  · obtain ⟨i,here,lives⟩ := some
    refine counted.leave lives (fun j => ?_) (fun j _ => by rw [fdt]) (congrArg FileSide.openft side) (congrArg FileSide.fdtes side)
      (congrArg FileSide.pipes side) (plain i here lives)
    rw [live,here]
    exact and_congr_right fun _ => ⟨fun away same => away (by rw [same]),fun away same => away (Fin.ext (Int.ofNat.inj same)).symm⟩
  · have same : m'.descs.live = m.descs.live := by
      funext j
      rw [Bool.eq_iff_iff,live]
      exact and_iff_left_of_imp fun lives here => some ⟨j,here,lives⟩
    exact counted.keep ⟨same,fdt,congrArg FileSide.openft side,fun p e there => ⟨e,(congrFun (congrArg FileSide.fdtes side) p).trans there,rfl,rfl,rfl⟩,
      fun id placed => by
        rw [show m'.descs.pipes = m.descs.pipes from congrArg FileSide.pipes side]
        exact placed⟩

theorem freeStack_still (p : UInt32) : Keeps (fun m => (m.descs,m.current)) (freeStack p) := by
  refine keeps_bind keeps_read fun _ => keeps_ite (fun _ => keeps_pure) fun _ => ?_
  exact keeps_ite (fun _ => keeps_update fun _ => rfl) fun _ => keeps_stop

theorem terminate_still : Keeps (fun m => (m.descs,m.current))
    (setRunning fun p => {p with status := .terminated,basePriority := -1}) := by
  refine keeps_bind keeps_read fun i => keeps_update fun m => ?_
  rw [@setPcb_descs m i (fun p => {p with status := .terminated,basePriority := -1}) fun _ => rfl]
  rfl

theorem svcExit_counted (counted : m.descs.Counted) (lives : m.descs.live m.current = true) (shares : m.descs.Shares m.current)
    (left : m'.live = m.live \ {m.current}) (run : svcExit.Ends m () m') :
    m'.descs.Counted ∧ Descs.Recounts m.descs m'.descs := by
  obtain ⟨_,t3,ended,switched⟩ := ends_bind.mp run
  obtain ⟨_,t,terminated,ended⟩ := ends_bind.mp ended
  obtain ⟨_,_,now,ended⟩ := ends_bind.mp ended
  obtain ⟨rfl,rfl⟩ := ends_read.mp now
  obtain ⟨_,u,freed,ended⟩ := ends_bind.mp ended
  obtain ⟨_,t1,closed,ended⟩ := ends_bind.mp ended
  obtain ⟨_,_,now,ended⟩ := ends_bind.mp ended
  obtain ⟨rfl,rfl⟩ := ends_read.mp now
  obtain ⟨_,t2,dropped,halts⟩ := ends_bind.mp ended
  have before := ((freeStack_still _).same freed).trans (terminate_still.same terminated)
  obtain ⟨descs,current⟩ := Prod.mk.inj before
  have emptied := closeAll_ends (m := u) (by rw [descs]; exact counted) (by rw [descs,current]; exact lives)
    (by rw [descs,current]; exact shares) closed
  have side : m'.fileSide = t1.fileSide :=
    ((@next_apart _ id _).same switched).trans (((@haltIfNone_apart _ id).same halts).trans ((@dropBit_apart _ id _).same dropped))
  have live : t1.descs.live = m.descs.live := by rw [emptied.live,descs]
  have recounts : Descs.Recounts t1.descs m'.descs := .of_eq (congrArg FileSide.openft side) (congrArg FileSide.fdtes side)
  refine ⟨?_,(descs ▸ emptied.objects).trans recounts⟩
  refine emptied.counted.leave (i := m.current) (by rw [live]; exact lives) (fun j => ?_)
    (fun j _ => congrFun (congrArg FileSide.fdt side) j) (congrArg FileSide.openft side) (congrArg FileSide.fdtes side)
    (congrArg FileSide.pipes side) fun k _ _ _ _ _ => ?_
  · rw [live]
    exact Set.ext_iff.mp left j
  · by_contra some
    obtain ⟨fd,here⟩ := uses_pos.mp (Nat.pos_of_ne_zero some)
    rw [← current,emptied.gone fd (.inl (List.mem_finRange fd))] at here
    omega

end Calls
end ArchiveOs.Kernel
