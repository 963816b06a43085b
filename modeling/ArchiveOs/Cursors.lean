import ArchiveOs.Returns
import ArchiveOs.Namings
import ArchiveOs.WriteFrames

-- Open files that are written to, where their cursors stand, and what each call does to them.
namespace ArchiveOs
namespace Fs2

theorem ofInt_nat (n : Nat) : UInt32.ofInt (n : Int) = UInt32.ofNat n := by
  apply UInt32.toNat_inj.mp
  show (UInt32.ofNat ((n : Int) % 2 ^ 32).toNat).toNat = _
  rw [UInt32.toNat_ofNat',UInt32.toNat_ofNat']
  omega

theorem moved_le (cursor : UInt32) (n : Nat) : (cursor + UInt32.ofInt n).toNat ≤ cursor.toNat + n := by
  rw [ofInt_nat,UInt32.toNat_add,UInt32.toNat_ofNat']
  have sum := Nat.mod_le (cursor.toNat + n % 2 ^ 32) (2 ^ 32)
  have part := Nat.mod_le n (2 ^ 32)
  omega

-- The files under all paths stay what they are.
def Image.Spares (m m' : Image) : Prop := ∀ path i q,m.resolve path = .ok (i,q) → (m.node i).ftype = ftypeFile →
  m'.resolve path = .ok (i,q) ∧ m'.node i = m.node i

namespace Image
variable {m m' : Image}

theorem Spares.refl (m : Image) : m.Spares m := fun _ _ _ found _ => ⟨found,rfl⟩

theorem Spares.nodes (same : m'.nodes = m.nodes) : m.Spares m' := by
  have node : m'.node = m.node := by
    funext i
    simp only [Image.node,same]
  have walk : ∀ d names,m'.walk d names = m.walk d names := by
    intro d names
    induction names generalizing d with
    | nil => rfl
    | cons name rest ih => simp only [Image.walk,Image.lookup,node,ih]
  intro path i q found _
  refine ⟨?_,by rw [node]⟩
  simpa only [Image.resolve,walk] using found

theorem create_spares (good : m.Good) (ftype : UInt8) (path : List UInt8) : m.Spares (m.create ftype path).1 := by
  rcases create_adds good ftype path with same | ⟨p,a,dir,adds⟩
  · exact Spares.nodes same
  · intro path' i q found file
    have more : m.Extends (m.create ftype path).1 := by
      obtain ⟨p',_,appended⟩ := create_appended good ftype path
      exact appended.toExtends
    refine ⟨more.resolve good found,?_⟩
    rcases adds.node (a.alive good).1 ((resolve_attached good found).alive good).1 with same | ⟨here,_⟩
    · exact same
    · rw [here,dir] at file
      cases file

theorem write_spares (good : m.Good) {path : List UInt8} {nbytes cursor : UInt32} {i : Nat} {q : Option Nat}
    (found : m.resolve path = .ok (i,q)) (file : (m.node i).ftype = ftypeFile) :
    (∀ path',(m.write path nbytes cursor).1.resolve path' = m.resolve path') ∧
      ∀ j,j ≠ i → (m.write path nbytes cursor).1.node j = m.node j := by
  rcases write_rewritten good path nbytes cursor with same | ⟨i',q',found',exist,file',rewritten⟩
  · rw [same]
    exact ⟨fun _ => rfl,fun _ _ => rfl⟩
  · cases found.symm.trans found'
    refine ⟨fun path' => rewritten.resolve ?_ exist path',rewritten.others⟩
    rw [file]
    decide

theorem write_eof (good : m.Good) {path : List UInt8} {nbytes cursor : UInt32} {i : Nat} {q : Option Nat}
    (found : m.resolve path = .ok (i,q)) (file : (m.node i).ftype = ftypeFile) (inside : cursor.toNat ≤ (m.node i).eof) :
    ((m.write path nbytes cursor).1.node i).ftype = ftypeFile ∧ 0 ≤ (m.write path nbytes cursor).2.2 ∧
      (cursor + UInt32.ofInt (m.write path nbytes cursor).2.2).toNat ≤ ((m.write path nbytes cursor).1.node i).eof := by
  have exist := ((resolve_attached good found).alive good).1
  unfold Image.write
  rw [found]
  dsimp only
  rw [if_neg (not_not.mpr file)]
  cases wrote : m.writeAt i nbytes cursor with
  | error e =>
      refine ⟨file,Int.le_refl 0,(moved_le cursor 0).trans ?_⟩
      simpa using inside
  | ok w =>
      have more := Rewritten.writeAt exist wrote
      dsimp only
      rw [node_setNode _ i (by rw [more.length_eq]; exact exist),if_pos rfl]
      refine ⟨(more.node i exist).ftype.trans file,Int.natCast_nonneg _,?_⟩
      rw [ofInt_nat]

theorem read_end {f : Files} {path : List UInt8} {nbytes cursor : UInt32} {i : Nat} {q : Option Nat}
    (found : f.image.resolve path = .ok (i,q)) (file : (f.image.node i).ftype = ftypeFile)
    (inside : cursor.toNat ≤ (f.image.node i).eof) :
    (cursor + UInt32.ofInt (f.image.read f.data path nbytes cursor).2.1).toNat ≤ (f.image.node i).eof := by
  unfold Image.read
  rw [found]
  dsimp only
  rw [if_neg (not_not.mpr file)]
  have few : (((f.data i).drop cursor.toNat).take nbytes.toNat).length ≤ (f.image.node i).eof - cursor.toNat := by
    have whole : (f.data i).length ≤ (f.image.node i).eof := List.length_take_le _ _
    rw [List.length_take,List.length_drop]
    omega
  refine (moved_le ..).trans ?_
  omega

end Image
end Fs2

namespace Kernel
open Fs2 Fs2.Mount
open Prog

-- The files that are open for writing: where their cursors stand, and that no file is open
-- for writing in two objects.
structure Cursors (f : Files) (d : Descs) : Prop where
  inside : ∀ p e,d.Writer p e → ∃ i q,f.image.resolve e.path.bytes = .ok (i,q) ∧ (f.image.node i).ftype = ftypeFile ∧
    e.cursor.toNat ≤ (f.image.node i).eof
  alone : ∀ p e o e' i q q',d.Writer p e → d.Writer o e' → f.image.resolve e.path.bytes = .ok (i,q) →
    f.image.resolve e'.path.bytes = .ok (i,q') → p = o

-- The cursor of one object moves by a count, unless the count says that there was an error.
structure Descs.Moves (d d' : Descs) (p : UInt32) (e : Fdte) (r : Int) : Prop where
  entry : ∃ k,d.openft k = some p
  object : d.fdtes p = some e
  file : e.type = .file
  openft : d'.openft = d.openft
  moved : d'.fdtes = fun q => if q = p then some (if 0 ≤ r then {e with cursor := e.cursor + UInt32.ofInt r} else e) else d.fdtes q

-- The files that are open for writing stay what they are.
def Descs.Spared (d : Descs) (g g' : Image) : Prop := ∀ p e i q,d.Writer p e → g.resolve e.path.bytes = .ok (i,q) →
  (g.node i).ftype = ftypeFile → g'.resolve e.path.bytes = .ok (i,q) ∧ g'.node i = g.node i

section Steps
variable {d d' : Descs} {f f' : Files} {p : UInt32} {e : Fdte} {r : Int}

theorem Descs.Spared.of_spares {g g' : Image} (spares : g.Spares g') : d.Spared g g' :=
  fun _ e i q _ found file => spares e.path.bytes i q found file

theorem Descs.Spared.refl (g : Image) : d.Spared g g := .of_spares (.refl g)

-- Whoever writes after the move has written before, with the same path and the same mode.
theorem Descs.Moves.writer (moves : d.Moves d' p e r) {o : UInt32} {e' : Fdte} (writer : d'.Writer o e') :
    o ≠ p ∧ d.Writer o e' ∨ o = p ∧ d.Writer p e ∧ e' = if 0 ≤ r then {e with cursor := e.cursor + UInt32.ofInt r} else e := by
  obtain ⟨⟨k,entry⟩,object,file,may⟩ := writer
  rw [moves.openft] at entry
  rw [moves.moved] at object
  dsimp only at object
  by_cases here : o = p
  · rw [if_pos here] at object
    have same := (Option.some.inj object).symm
    refine .inr ⟨here,⟨moves.entry,moves.object,moves.file,?_⟩,same⟩
    rw [same] at may
    split at may
    · exact may
    · exact may
  · rw [if_neg here] at object
    exact .inl ⟨here,⟨k,entry⟩,object,file,may⟩

theorem Descs.Moves.path (moves : d.Moves d' p e r) {o : UInt32} {e' : Fdte} (writer : d'.Writer o e') :
    ∃ old,d.Writer o old ∧ e'.path = old.path := by
  rcases moves.writer writer with ⟨_,old⟩ | ⟨rfl,old,same⟩
  · exact ⟨e',old,rfl⟩
  · refine ⟨e,old,?_⟩
    rw [same]
    split
    · rfl
    · rfl

theorem Cursors.keep (cursors : Cursors f d) (spared : d.Spared f.image f'.image) (settles : d.Settles d') : Cursors f' d' := by
  have back : ∀ {p e},d'.Writer p e → ∃ old i q,d.Writer p old ∧ e.cursor = old.cursor ∧
      f.image.resolve old.path.bytes = .ok (i,q) ∧ f'.image.resolve e.path.bytes = .ok (i,q) ∧
      (f.image.node i).ftype = ftypeFile ∧ f'.image.node i = f.image.node i ∧ old.cursor.toNat ≤ (f.image.node i).eof := by
    intro p e writer
    obtain ⟨old,before,path,cursor⟩ := settles p e writer
    obtain ⟨i,q,found,file,inside⟩ := cursors.inside p old before
    obtain ⟨found',same⟩ := spared p old i q before found file
    exact ⟨old,i,q,before,cursor,found,by rw [path]; exact found',file,same,inside⟩
  refine ⟨fun p e writer => ?_,fun p e o e' i q q' one two found found' => ?_⟩
  · obtain ⟨old,i,q,_,cursor,_,found',file,same,inside⟩ := back writer
    refine ⟨i,q,found',?_,?_⟩
    · rw [same]
      exact file
    · rw [same,cursor]
      exact inside
  · obtain ⟨old,j,_,before,_,was,is,_⟩ := back one
    obtain ⟨old',j',_,before',_,was',is',_⟩ := back two
    obtain ⟨rfl,rfl⟩ := Prod.mk.inj (Except.ok.inj (is.symm.trans found))
    obtain ⟨rfl,rfl⟩ := Prod.mk.inj (Except.ok.inj (is'.symm.trans found'))
    exact cursors.alone p old o old' _ _ _ before before' was was'

-- A write moves the cursor of the only object that its file is open for writing in.
theorem Cursors.write (cursors : Cursors f d) (good : f.image.Good) {nbytes : UInt32} (src : Nat → UInt8)
    (moves : d.Moves d' p e (f.answer (.plain (.write e.path src nbytes e.cursor))).2.result) (may : e.mode = .w ∨ e.mode = .rw) :
    Cursors (f.answer (.plain (.write e.path src nbytes e.cursor))).1 d' := by
  have mine : d.Writer p e := ⟨moves.entry,moves.object,moves.file,may⟩
  obtain ⟨i,q,found,file,inside⟩ := cursors.inside p e mine
  obtain ⟨paths,others⟩ := @Image.write_spares _ good _ nbytes e.cursor _ _ found file
  obtain ⟨file',pos,eof⟩ := @Image.write_eof _ good _ nbytes _ _ _ found file inside
  change d.Moves d' p e (f.image.write e.path.bytes nbytes e.cursor).2.2 at moves
  refine ⟨fun o e' writer => ?_,fun o e' o' e'' j q q' one two => ?_⟩
  · show ∃ j q,(f.image.write e.path.bytes nbytes e.cursor).1.resolve e'.path.bytes = .ok (j,q) ∧ _
    rcases moves.writer writer with ⟨away,before⟩ | ⟨rfl,_,same⟩
    · obtain ⟨j,q',found',other,inside'⟩ := cursors.inside o e' before
      have apart : j ≠ i := by
        rintro rfl
        exact away (cursors.alone o e' p e j q' q before mine found' found)
      refine ⟨j,q',(paths _).trans found',?_,?_⟩
      · show ((f.image.write e.path.bytes nbytes e.cursor).1.node j).ftype = _
        rw [others j apart]
        exact other
      · show _ ≤ ((f.image.write e.path.bytes nbytes e.cursor).1.node j).eof
        rw [others j apart]
        exact inside'
    · rw [if_pos pos] at same
      subst same
      exact ⟨i,q,(paths _).trans found,file',eof⟩
  · show (f.image.write e.path.bytes nbytes e.cursor).1.resolve _ = _ → (f.image.write e.path.bytes nbytes e.cursor).1.resolve _ = _ → _
    rw [paths,paths]
    obtain ⟨old,before,path⟩ := moves.path one
    obtain ⟨old',before',path'⟩ := moves.path two
    rw [path,path']
    exact cursors.alone o old o' old' j q q' before before'

theorem Cursors.read (cursors : Cursors f d) {nbytes : UInt32}
    (moves : d.Moves d' p e (f.answer (.plain (.read e.path nbytes e.cursor))).2.result) : Cursors f d' := by
  refine ⟨fun o e' writer => ?_,fun o e' o' e'' j q q' one two => ?_⟩
  · rcases moves.writer writer with ⟨_,before⟩ | ⟨rfl,before,same⟩
    · exact cursors.inside o e' before
    · obtain ⟨i,q,found,file,inside⟩ := cursors.inside o e before
      have least := @Image.read_end f _ nbytes _ _ _ found file inside
      rw [same]
      split
      · exact ⟨i,q,found,file,least⟩
      · exact ⟨i,q,found,file,inside⟩
  · obtain ⟨old,before,path⟩ := moves.path one
    obtain ⟨old',before',path'⟩ := moves.path two
    rw [path,path']
    exact cursors.alone o old o' old' j q q' before before'

-- One object comes, at the beginning of a file that nobody else has open for writing.
theorem Cursors.begin (cursors : Cursors f d) (spares : f.image.Spares f'.image) {new : Fdte} (start : new.cursor = 0)
    (begins : ∀ o e,d'.Writer o e → o ≠ p ∧ d.Writer o e ∨ o = p ∧ e = new)
    (leads : d'.Writer p new → ∃ i q,f'.image.resolve new.path.bytes = .ok (i,q) ∧ (f'.image.node i).ftype = ftypeFile ∧
      ∀ o e q',d.Writer o e → f'.image.resolve e.path.bytes ≠ .ok (i,q')) : Cursors f' d' := by
  have kept : Cursors f' d := cursors.keep (.of_spares spares) (Descs.Recounts.refl d).settles
  refine ⟨fun o e writer => ?_,fun o e o' e' i q q' one two found found' => ?_⟩
  · rcases begins o e writer with ⟨_,before⟩ | ⟨rfl,rfl⟩
    · exact kept.inside o e before
    · obtain ⟨i,q,found,file,_⟩ := leads writer
      refine ⟨i,q,found,file,?_⟩
      rw [start]
      exact Nat.zero_le _
  · rcases begins o e one with ⟨_,before⟩ | ⟨rfl,rfl⟩ <;> rcases begins o' e' two with ⟨_,before'⟩ | ⟨rfl,rfl⟩
    · exact kept.alone o e o' e' i q q' before before' found found'
    · obtain ⟨j,_,here,_,nobody⟩ := leads two
      obtain ⟨rfl,rfl⟩ := Prod.mk.inj (Except.ok.inj (here.symm.trans found'))
      exact absurd found (nobody o e q before)
    · obtain ⟨j,_,here,_,nobody⟩ := leads one
      obtain ⟨rfl,rfl⟩ := Prod.mk.inj (Except.ok.inj (here.symm.trans found))
      exact absurd found' (nobody o' e' q' before')
    · rfl

end Steps
end Kernel
end ArchiveOs
