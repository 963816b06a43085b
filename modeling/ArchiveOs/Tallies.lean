import ArchiveOs.Descriptors
import ArchiveOs.References

-- The descriptors of all processes, the file table and its objects, and that the objects
-- count the descriptors that lead to them.
namespace ArchiveOs.Kernel
open References

structure Descs where
  live : Fin pcbSize → Bool
  fdt : Fin pcbSize → Fin fdtSize → Int
  openft : Fin openSize → Option UInt32
  fdtes : UInt32 → Option Fdte
  pipes : Fin pcbSize → Option Pipe

def Machine.descs (m : Machine) : Descs where
  live i := alive m.pcballoc i
  fdt i := (m.pcb i).fdt
  openft := m.openft
  fdtes := m.heap.fdtes
  pipes := m.pipes

namespace Descs

-- The descriptors of live processes that lead to an entry of the file table.
def refs (d : Descs) (k : Fin openSize) : Nat := count d.live d.fdt (k.val : Int)

-- An object behind entry k. What the UART counts is not said: its objects are never filled in.
structure Holds (d : Descs) (k : Fin openSize) (e : Fdte) : Prop where
  kind : e.type ≠ .kern
  exact : e.type ≠ .uart → e.openCount = d.refs k
  used : e.type ≠ .uart → 0 < d.refs k
  pipe : e.type = .pipe → ∃ id : Fin pcbSize,e.id.toNat = id.val ∧ (d.pipes id).isSome

structure Counted (d : Descs) : Prop where
  leads : ∀ i fd,d.live i = true → d.fdt i fd = -1 ∨ ∃ k : Fin openSize,d.fdt i fd = k.val ∧ (d.openft k).isSome
  object : ∀ k p,d.openft k = some p → ∃ e,d.fdtes p = some e ∧ d.Holds k e
  apart : ∀ k l p,d.openft k = some p → d.openft l = some p → k = l

section Steps
variable {d d' d'' : Descs}

-- What is behind the entries was there before, at most with another count.
def Recounts (d d' : Descs) : Prop := ∀ k p e',d'.openft k = some p → d'.fdtes p = some e' →
  d.openft k = some p ∧ ∃ e,d.fdtes p = some e ∧ e' = {e with openCount := e'.openCount}

theorem Recounts.refl (d : Descs) : Recounts d d := fun _ _ e entry object => ⟨entry,e,object,rfl⟩

theorem Recounts.trans (one : Recounts d d') (two : Recounts d' d'') : Recounts d d'' := by
  intro k p e'' entry object
  obtain ⟨entry',e',object',same'⟩ := two k p e'' entry object
  obtain ⟨entry'',e,object'',same⟩ := one k p e' entry' object'
  refine ⟨entry'',e,object'',?_⟩
  rw [same',same]

-- An object of a file that may be written to, behind an entry.
structure Writer (d : Descs) (p : UInt32) (e : Fdte) : Prop where
  entry : ∃ k,d.openft k = some p
  object : d.fdtes p = some e
  file : e.type = .file
  may : e.mode = .w ∨ e.mode = .rw

-- No file comes to be open for writing, and no cursor of one that is moves.
def Settles (d d' : Descs) : Prop := ∀ p e',d'.Writer p e' → ∃ e,d.Writer p e ∧ e'.path = e.path ∧ e'.cursor = e.cursor

theorem Recounts.settles (recounts : Recounts d d') : Settles d d' := by
  intro p e' writer
  obtain ⟨k,entry⟩ := writer.entry
  obtain ⟨entry',e,object,same⟩ := recounts k p e' entry writer.object
  have file := writer.file
  have may := writer.may
  rw [same] at file may
  exact ⟨e,⟨⟨k,entry'⟩,object,file,may⟩,by rw [same],by rw [same]⟩

theorem Recounts.of_eq (openft : d'.openft = d.openft) (fdtes : d'.fdtes = d.fdtes) : Recounts d d' := by
  intro k p e' entry object
  rw [openft] at entry
  rw [fdtes] at object
  exact ⟨entry,e',object,rfl⟩

-- The same references to the same objects, which may have moved their cursors.
structure SameRefs (d d' : Descs) : Prop where
  live : d'.live = d.live
  fdt : d'.fdt = d.fdt
  openft : d'.openft = d.openft
  objects : ∀ p e,d.fdtes p = some e →
    ∃ e',d'.fdtes p = some e' ∧ e'.type = e.type ∧ e'.openCount = e.openCount ∧ e'.id = e.id
  pipes : ∀ id,(d.pipes id).isSome → (d'.pipes id).isSome

theorem SameRefs.refl (d : Descs) : SameRefs d d := ⟨rfl,rfl,rfl,fun _ e there => ⟨e,there,rfl,rfl,rfl⟩,fun _ some => some⟩

theorem Counted.keep (counted : d.Counted) (same : SameRefs d d') : d'.Counted := by
  have refs : ∀ k,d'.refs k = d.refs k := by
    intro k
    unfold Descs.refs
    rw [same.live,same.fdt]
  refine ⟨fun i fd lives => ?_,fun k p entry => ?_,fun k l p => ?_⟩
  · rw [same.live] at lives
    rw [same.fdt,same.openft]
    exact counted.leads i fd lives
  · rw [same.openft] at entry
    obtain ⟨e,there,holds⟩ := counted.object k p entry
    obtain ⟨e',there',type,openCount,id⟩ := same.objects p e there
    refine ⟨e',there',?_,?_,?_,?_⟩
    · rw [type]
      exact holds.kind
    · rw [type,openCount,refs]
      exact holds.exact
    · rw [type,refs]
      exact holds.used
    · rw [type,id]
      intro pipe
      obtain ⟨n,is,some⟩ := holds.pipe pipe
      exact ⟨n,is,same.pipes n some⟩
  · rw [same.openft]
    exact counted.apart k l p

theorem Counted.unused (counted : d.Counted) {k : Fin openSize} (free : d.openft k = none) : d.refs k = 0 := by
  by_contra some
  obtain ⟨i,fd,lives,here⟩ := count_pos.mp (Nat.pos_of_ne_zero some)
  rcases counted.leads i fd lives with none | ⟨l,there,taken⟩
  · rw [here] at none
    omega
  · have same : l = k := Fin.ext (Int.ofNat.inj (there.symm.trans here))
    rw [same,free] at taken
    cases taken

theorem refs_change {i : Fin pcbSize} {fd : Fin fdtSize} (lives : d.live i = true) (live : d'.live = d.live)
    (other : ∀ j,j ≠ i → d'.fdt j = d.fdt j) (rest : ∀ g,g ≠ fd → d'.fdt i g = d.fdt i g) (k : Fin openSize) :
    d'.refs k + (if d.fdt i fd = k.val then 1 else 0) = d.refs k + (if d'.fdt i fd = k.val then 1 else 0) := by
  have change := count_change (f := d.fdt) (g := d'.fdt) lives (fun j _ away => other j away) (k.val : Int)
  have slot := uses_change rest (k.val : Int)
  unfold Descs.refs
  rw [live]
  omega

-- A new object with a new entry and one descriptor.
structure Enter (d d' : Descs) (i : Fin pcbSize) (fd : Fin fdtSize) (k : Fin openSize) (p : UInt32) (e : Fdte) : Prop where
  live : d'.live = d.live
  slot : d.fdt i fd = -1
  set : d'.fdt i fd = k.val
  other : ∀ j,j ≠ i → d'.fdt j = d.fdt j
  rest : ∀ g,g ≠ fd → d'.fdt i g = d.fdt i g
  free : d.openft k = none
  entry : d'.openft = put d.openft k (some p)
  fresh : d.fdtes p = none
  object : d'.fdtes p = some e
  objects : ∀ q,q ≠ p → d'.fdtes q = d.fdtes q
  pipes : ∀ id,(d.pipes id).isSome → (d'.pipes id).isSome

theorem Counted.enter (counted : d.Counted) {i : Fin pcbSize} {fd : Fin fdtSize} {k : Fin openSize} {p : UInt32} {e : Fdte}
    (lives : d.live i = true) (enter : Enter d d' i fd k p e) (one : e.openCount = 1) (kind : e.type = .file ∨ e.type = .pipe)
    (pipe : e.type = .pipe → ∃ id : Fin pcbSize,e.id.toNat = id.val ∧ (d'.pipes id).isSome) : d'.Counted := by
  have refs := refs_change lives enter.live enter.other enter.rest
  have self : d'.refs k = 1 := by
    have now := refs k
    rw [enter.slot,enter.set,if_pos rfl,if_neg (by omega),counted.unused enter.free] at now
    omega
  have others : ∀ l,l ≠ k → d'.refs l = d.refs l := by
    intro l away
    have now := refs l
    have elsewhere : (k.val : Int) ≠ l.val := fun same => away (Fin.ext (Int.ofNat.inj same).symm)
    rw [enter.slot,enter.set,if_neg (by omega),if_neg elsewhere] at now
    omega
  have entries : ∀ l,l ≠ k → d'.openft l = d.openft l := by
    intro l away
    rw [enter.entry]
    exact put_other _ _ away
  have here : d'.openft k = some p := by
    rw [enter.entry]
    exact put_self ..
  have known : ∀ l q,d.openft l = some q → q ≠ p := by
    intro l q taken same
    obtain ⟨e',there,_⟩ := counted.object l q taken
    rw [same,enter.fresh] at there
    cases there
  refine ⟨fun j g counts => ?_,fun l q taken => ?_,fun l l' q one' two' => ?_⟩
  · rw [enter.live] at counts
    have old := counted.leads j g counts
    have still : (d.fdt j g = -1 ∨ ∃ l : Fin openSize,d.fdt j g = l.val ∧ (d.openft l).isSome) →
        d.fdt j g = -1 ∨ ∃ l : Fin openSize,d.fdt j g = l.val ∧ (d'.openft l).isSome := by
      rintro (none | ⟨l,there,taken⟩)
      · exact .inl none
      · have away : l ≠ k := by
          rintro rfl
          rw [enter.free] at taken
          cases taken
        exact .inr ⟨l,there,by rw [entries l away]; exact taken⟩
    by_cases mine : j = i
    · subst mine
      by_cases this : g = fd
      · subst this
        exact .inr ⟨k,enter.set,by rw [here]; rfl⟩
      · rw [enter.rest g this]
        exact still old
    · rw [enter.other j mine]
      exact still old
  · by_cases mine : l = k
    · subst mine
      cases here.symm.trans taken
      have counted' : e.type ≠ .uart → e.openCount = d'.refs l := fun _ => by rw [one,self]; rfl
      refine ⟨e,enter.object,?_,counted',fun _ => by rw [self]; exact Nat.one_pos,pipe⟩
      rcases kind with file | pipe <;> rw [‹e.type = _›] <;> decide
    · rw [entries l mine] at taken
      obtain ⟨e',there,holds⟩ := counted.object l q taken
      refine ⟨e',by rw [enter.objects q (known l q taken)]; exact there,holds.kind,?_,?_,fun pipe => ?_⟩
      · rw [others l mine]
        exact holds.exact
      · rw [others l mine]
        exact holds.used
      · obtain ⟨n,same,some⟩ := holds.pipe pipe
        exact ⟨n,same,enter.pipes n some⟩
  · by_cases mine : l = k
    · subst mine
      by_cases mine' : l' = l
      · exact mine'.symm
      · rw [entries l' mine'] at two'
        exact absurd (Option.some.inj (one'.symm.trans here)) (known l' q two')
    · by_cases mine' : l' = k
      · subst mine'
        rw [entries l mine] at one'
        exact absurd (Option.some.inj (two'.symm.trans here)) (known l q one')
      · rw [entries l mine] at one'
        rw [entries l' mine'] at two'
        exact counted.apart l l' q one' two'

def entered (d : Descs) (i : Fin pcbSize) (fd : Fin fdtSize) (k : Fin openSize) (p : UInt32) (e : Fdte) : Descs :=
  {d with
    fdt := put d.fdt i (put (d.fdt i) fd k.val)
    openft := put d.openft k (some p)
    fdtes := fun q => if q = p then some e else d.fdtes q}

theorem entered_enter {i : Fin pcbSize} {fd : Fin fdtSize} {k : Fin openSize} {p : UInt32} (e : Fdte) (slot : d.fdt i fd = -1)
    (free : d.openft k = none) (fresh : d.fdtes p = none) : Enter d (d.entered i fd k p e) i fd k p e := by
  refine ⟨rfl,slot,?_,fun j other => put_other _ _ other,fun g rest => ?_,free,rfl,fresh,if_pos rfl,fun q other => if_neg other,
    fun _ some => some⟩
  · show put d.fdt i (put (d.fdt i) fd k.val) i fd = k.val
    rw [put_self,put_self]
  · show put d.fdt i (put (d.fdt i) fd k.val) i g = d.fdt i g
    rw [put_self,put_other _ _ rest]

-- One descriptor goes, and its object counts one less.
structure Drop (d d' : Descs) (i : Fin pcbSize) (fd : Fin fdtSize) (k : Fin openSize) (p : UInt32) (e : Fdte) : Prop where
  live : d'.live = d.live
  slot : d.fdt i fd = k.val
  set : d'.fdt i fd = -1
  other : ∀ j,j ≠ i → d'.fdt j = d.fdt j
  rest : ∀ g,g ≠ fd → d'.fdt i g = d.fdt i g
  entry : d.openft k = some p
  object : d.fdtes p = some e
  objects : ∀ q,q ≠ p → d'.fdtes q = d.fdtes q
  pipes : d'.pipes = d.pipes

section Dropped
variable {i : Fin pcbSize} {fd : Fin fdtSize} {k : Fin openSize} {p : UInt32} {e : Fdte}

theorem Drop.refs_self (drop : Drop d d' i fd k p e) (lives : d.live i = true) : d'.refs k + 1 = d.refs k := by
  have now := refs_change lives drop.live drop.other drop.rest k
  rw [drop.slot,drop.set,if_pos rfl,if_neg (by omega)] at now
  omega

theorem Drop.refs_other (drop : Drop d d' i fd k p e) (lives : d.live i = true) {l : Fin openSize} (away : l ≠ k) :
    d'.refs l = d.refs l := by
  have now := refs_change lives drop.live drop.other drop.rest l
  have elsewhere : (k.val : Int) ≠ l.val := fun same => away (Fin.ext (Int.ofNat.inj same).symm)
  rw [drop.slot,drop.set,if_neg elsewhere,if_neg (by omega)] at now
  omega

theorem Drop.holds (drop : Drop d d' i fd k p e) (lives : d.live i = true) {l : Fin openSize} (away : l ≠ k) {e' : Fdte}
    (holds : d.Holds l e') : d'.Holds l e' := by
  have same := drop.refs_other lives away
  refine ⟨holds.kind,?_,?_,?_⟩
  · rw [same]
    exact holds.exact
  · rw [same]
    exact holds.used
  · rw [drop.pipes]
    exact holds.pipe

theorem Drop.leads (drop : Drop d d' i fd k p e) (counted : d.Counted) {j : Fin pcbSize} {g : Fin fdtSize}
    (counts : d'.live j = true) : d'.fdt j g = -1 ∨ ∃ l : Fin openSize,d'.fdt j g = l.val ∧ (d.openft l).isSome := by
  rw [drop.live] at counts
  by_cases mine : j = i
  · subst mine
    by_cases this : g = fd
    · subst this
      exact .inl drop.set
    · rw [drop.rest g this]
      exact counted.leads j g counts
  · rw [drop.other j mine]
    exact counted.leads j g counts

theorem Counted.less (counted : d.Counted) (lives : d.live i = true) (drop : Drop d d' i fd k p e)
    (openft : d'.openft = d.openft) (stays : d'.fdtes p = some {e with openCount := e.openCount - 1})
    (more : e.type ≠ .uart → 1 < d.refs k) : d'.Counted := by
  refine ⟨fun j g counts => ?_,fun l q taken => ?_,fun l l' q => ?_⟩
  · rw [openft]
    exact drop.leads counted counts
  · rw [openft] at taken
    obtain ⟨e',there,holds⟩ := counted.object l q taken
    by_cases mine : l = k
    · subst mine
      cases drop.entry.symm.trans taken
      cases drop.object.symm.trans there
      have self := drop.refs_self lives
      refine ⟨_,stays,holds.kind,fun kind => ?_,fun kind => ?_,?_⟩
      · have old := holds.exact kind
        show e.openCount - 1 = _
        omega
      · have old := more kind
        omega
      · rw [drop.pipes]
        exact holds.pipe
    · have away : q ≠ p := fun same => mine (counted.apart l k p (same ▸ taken) drop.entry)
      exact ⟨e',by rw [drop.objects q away]; exact there,drop.holds lives mine holds⟩
  · rw [openft]
    exact counted.apart l l' q

theorem Counted.last (counted : d.Counted) (lives : d.live i = true) (drop : Drop d d' i fd k p e)
    (openft : d'.openft = put d.openft k none) (last : d.refs k = 1) : d'.Counted := by
  have gone : d'.refs k = 0 := by
    have self := drop.refs_self lives
    omega
  have entries : ∀ l,l ≠ k → d'.openft l = d.openft l := by
    intro l away
    rw [openft]
    exact put_other _ _ away
  have none : d'.openft k = none := by
    rw [openft]
    exact put_self ..
  refine ⟨fun j g counts => ?_,fun l q taken => ?_,fun l l' q one two => ?_⟩
  · rcases drop.leads counted counts with free | ⟨l,there,taken⟩
    · exact .inl free
    · have away : l ≠ k := by
        rintro rfl
        have some : 0 < d'.refs l := count_pos.mpr ⟨j,g,counts,there⟩
        omega
      exact .inr ⟨l,there,by rw [entries l away]; exact taken⟩
  · have mine : l ≠ k := by
      rintro rfl
      cases none.symm.trans taken
    rw [entries l mine] at taken
    obtain ⟨e',there,holds⟩ := counted.object l q taken
    have away : q ≠ p := fun same => mine (counted.apart l k p (same ▸ taken) drop.entry)
    exact ⟨e',by rw [drop.objects q away]; exact there,drop.holds lives mine holds⟩
  · have mine : l ≠ k := by
      rintro rfl
      cases none.symm.trans one
    have mine' : l' ≠ k := by
      rintro rfl
      cases none.symm.trans two
    rw [entries l mine] at one
    rw [entries l' mine'] at two
    exact counted.apart l l' q one two

end Dropped

theorem Counted.permute (counted : d.Counted) {i : Fin pcbSize} (order : Equiv.Perm (Fin fdtSize)) (live : d'.live = d.live)
    (mine : ∀ fd,d'.fdt i fd = d.fdt i (order fd)) (other : ∀ j,j ≠ i → d'.fdt j = d.fdt j) (openft : d'.openft = d.openft)
    (fdtes : d'.fdtes = d.fdtes) (pipes : d'.pipes = d.pipes) : d'.Counted := by
  have refs : ∀ k,d'.refs k = d.refs k := by
    intro k
    unfold Descs.refs
    rw [live]
    refine Finset.sum_congr rfl fun j _ => ?_
    by_cases this : j = i
    · rw [this]
      exact uses_permute order mine _
    · rw [other j this]
  refine ⟨fun j fd counts => ?_,fun k p taken => ?_,fun k l p => ?_⟩
  · rw [live] at counts
    rw [openft]
    by_cases this : j = i
    · subst this
      rw [mine]
      exact counted.leads j _ counts
    · rw [other j this]
      exact counted.leads j fd counts
  · rw [openft] at taken
    obtain ⟨e,there,holds⟩ := counted.object k p taken
    refine ⟨e,by rw [fdtes]; exact there,holds.kind,?_,?_,?_⟩
    · rw [refs]
      exact holds.exact
    · rw [refs]
      exact holds.used
    · rw [pipes]
      exact holds.pipe
  · rw [openft]
    exact counted.apart k l p

theorem Counted.join (counted : d.Counted) {i child : Fin pcbSize} (lives : d.live i = true) (new : d.live child = false)
    (live : ∀ j,d'.live j = true ↔ d.live j = true ∨ j = child) (same : ∀ j,d.live j = true → d'.fdt j = d.fdt j)
    (copy : d'.fdt child = d.fdt i) (openft : d'.openft = d.openft) (pipes : d'.pipes = d.pipes)
    (shares : ∀ k p e,d.openft k = some p → d.fdtes p = some e →
      d'.fdtes p = some {e with openCount := e.openCount + (uses (d.fdt i) (k.val : Int) : Nat)}) : d'.Counted := by
  have refs : ∀ k,d'.refs k = d.refs k + uses (d.fdt i) (k.val : Int) := by
    intro k
    have all := count_join new live same (k.val : Int)
    rw [copy] at all
    exact all
  refine ⟨fun j fd counts => ?_,fun k p taken => ?_,fun k l p => ?_⟩
  · rw [openft]
    rcases (live j).mp counts with old | rfl
    · rw [same j old]
      exact counted.leads j fd old
    · rw [copy]
      exact counted.leads i fd lives
  · rw [openft] at taken
    obtain ⟨e,there,holds⟩ := counted.object k p taken
    refine ⟨_,shares k p e taken there,holds.kind,fun kind => ?_,fun kind => ?_,?_⟩
    · have old := holds.exact kind
      rw [refs]
      show e.openCount + _ = _
      push_cast
      omega
    · have old := holds.used kind
      rw [refs]
      omega
    · rw [pipes]
      exact holds.pipe
  · rw [openft]
    exact counted.apart k l p

-- Only the UART is open in a process.
def Plain (d : Descs) (i : Fin pcbSize) : Prop :=
  ∀ k p e,d.openft k = some p → d.fdtes p = some e → e.type ≠ .uart → uses (d.fdt i) (k.val : Int) = 0

theorem Counted.leave (counted : d.Counted) {i : Fin pcbSize} (lives : d.live i = true)
    (live : ∀ j,d'.live j = true ↔ d.live j = true ∧ j ≠ i) (same : ∀ j,d'.live j = true → d'.fdt j = d.fdt j)
    (openft : d'.openft = d.openft) (fdtes : d'.fdtes = d.fdtes) (pipes : d'.pipes = d.pipes)
    (plain : d.Plain i) : d'.Counted := by
  refine ⟨fun j fd counts => ?_,fun k p taken => ?_,fun k l p => ?_⟩
  · rw [same j counts,openft]
    exact counted.leads j fd ((live j).mp counts).1
  · rw [openft] at taken
    obtain ⟨e,there,holds⟩ := counted.object k p taken
    have refs : e.type ≠ .uart → d'.refs k = d.refs k := by
      intro kind
      have all := count_leave lives live same (k.val : Int)
      rw [plain k p e taken there kind] at all
      exact all
    refine ⟨e,by rw [fdtes]; exact there,holds.kind,fun kind => ?_,fun kind => ?_,?_⟩
    · rw [refs kind]
      exact holds.exact kind
    · rw [refs kind]
      exact holds.used kind
    · rw [pipes]
      exact holds.pipe
  · rw [openft]
    exact counted.apart k l p

end Steps
end Descs
end ArchiveOs.Kernel
