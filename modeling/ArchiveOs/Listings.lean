import ArchiveOs.Puts

-- Listing a directory and asking for a file type: what the image says, or a stop
-- at a failed read.
namespace ArchiveOs.Fs2
open Extents Layout

def lsLinks (nchars : Int) : List Link → List UInt8 → Bool × List UInt8
  | [],out => if (out.length : Int) < nchars then (true,out ++ [0]) else (false,out)
  | l :: rest,out =>
    match lsName nchars l.name out with
    | (out,false) => (false,out)
    | (out,true) => if (out.length : Int) < nchars then lsLinks nchars rest (out ++ [0x0A]) else (false,out)

namespace Image

def ls (m : Image) (path : List UInt8) (nchars : Int) : Outcome × Bool × List UInt8 :=
  match m.resolve path with
  | .error e => (e,false,[])
  | .ok (i,_) => (.success,lsLinks nchars (m.node i).links [])

def isftype (m : Image) (path : List UInt8) (ftype : UInt8) : Outcome × Bool :=
  match m.resolve path with
  | .error e => (e,false)
  | .ok (i,_) => (.success,(m.node i).ftype == ftype)

end Image

theorem lsName_cstr (nchars : Int) (name out : List UInt8) :
    lsName nchars name out = lsName nchars (name.takeWhile (· ≠ 0)) out := by
  induction name generalizing out with
  | nil => rfl
  | cons c rest ih =>
    unfold lsName
    by_cases zero : c = 0
    · rw [if_pos zero,zero]; rfl
    · rw [if_neg zero,List.takeWhile_cons_of_pos (by simpa using zero)]
      dsimp only
      rw [if_neg zero,ih]

-- A name is stored as a whole, or up to the end of the buffer; the check comes after
-- the store, so that a name that begins at the end still leaves one byte behind it.
theorem lsName_cases {nchars : Int} {name : List UInt8} (noNul : 0 ∉ name) {out : List UInt8}
    (room : (out.length : Int) ≤ nchars) :
    lsName nchars name out = (out ++ name,true) ∧ (name = [] ∨ ((out.length + name.length : Nat) : Int) < nchars) ∨
    ∃ out',lsName nchars name out = (out',false) ∧ name ≠ [] ∧ nchars ≤ ((out.length + name.length : Nat) : Int) ∧
      (out'.length : Int) = if (out.length : Int) = nchars then nchars + 1 else nchars := by
  induction name generalizing out with
  | nil =>
      refine .inl ⟨?_,.inl rfl⟩
      unfold lsName
      rw [List.append_nil]
  | cons c name ih =>
      rw [List.mem_cons,not_or] at noNul
      have longer : (out ++ [c]).length = out.length + 1 := by simp
      have grown : out.length + (c :: name).length = (out ++ [c]).length + name.length := by simp; omega
      unfold lsName
      rw [if_neg (Ne.symm noNul.1)]
      dsimp only
      rw [grown]
      by_cases full : ((out ++ [c]).length : Int) ≥ nchars
      · rw [if_pos full]
        refine .inr ⟨_,rfl,List.cons_ne_nil _ _,by omega,?_⟩
        split <;> omega
      · rw [if_neg full]
        rcases @ih noNul.2 (out ++ [c]) (by omega) with ⟨stored,fits⟩ | ⟨out',cut,_,long,length⟩
        · refine .inl ⟨by rw [stored,List.append_assoc]; rfl,.inr ?_⟩
          rcases fits with rfl | fits
          · rw [List.length_nil]
            omega
          · exact fits
        · refine .inr ⟨out',cut,List.cons_ne_nil _ _,long,?_⟩
          rw [length,if_neg (by omega),if_neg (by omega)]

-- No name that is not empty begins where the buffer ends, when the lines before it
-- have come to `len` bytes.
def Spare (nchars : Int) : (len : Nat) → List Link → Prop
  | _,[] => True
  | len,l :: rest => ((len : Int) = nchars → l.name = []) ∧ Spare nchars (len + l.name.length + 1) rest

namespace Mount

structure Stopped (s s' : Mount) : Prop extends Looked s s' where
  loud : s'.disk.failed = true
  faulty : s.disk.Faulty
  outcome : s'.vol.outcome = .diskRdErr

theorem Looked.dev {s s' : Mount} (a : Looked s s') (quiet : s'.disk.failed = s.disk.failed) : Dev s s' :=
  ⟨a.blk0,a.rdFails,a.wrFails,quiet,a.later⟩

theorem findInode_look {s : Mount} (v : s.Valid) (sound : s.disk.Sound) (path : Path) :
    ∃ s₁ x p,findFile s path.bytes = some (s₁,x,p) ∧
      match s.image.resolve path.bytes with
      | .error e => (Looked s s₁ ∧ s₁.disk.failed = s.disk.failed ∧ s₁.vol.outcome = e ∧ e ≠ .success) ∨ Stopped s s₁
      | .ok (i,q) => (s₁.vol.outcome = .success ∧ x.toNat = i ∧ p.map UInt32.toNat = q ∧
          i < s.vol.hblock.nextInode.toNat ∧ Looked s s₁ ∧ s₁.disk.failed = s.disk.failed ∧
          ∃ s₂,getIblockC s₁ (x / 32) false false = some s₂ ∧ Looked s s₂ ∧ s₂.disk.failed = s.disk.failed ∧
            s₂.vol.outcome = .success ∧ s₂.vol.icindex = x / 32 ∧ s₂.Placed ∧ s₂.cached x = s.inode i) ∨ Stopped s s₁ := by
  obtain ⟨s₁,x,p,run,looked,_,result⟩ := findFile_look v sound path.bytes path.noNul
  refine ⟨s₁,x,p,run,?_⟩
  rcases result with ⟨calm,result⟩ | ⟨loud,faulty,_,_,error⟩
  · cases found : s.image.resolve path.bytes with
    | error e =>
      rw [found] at result
      exact .inl ⟨looked,calm,result.2.2,(Image.resolve_error found).1⟩
    | ok r =>
      obtain ⟨i,q⟩ := r
      rw [found] at result
      obtain ⟨index,parent,success⟩ := result
      have exist : i < s.vol.hblock.nextInode.toNat := by
        have := ((Image.resolve_attached v.good found).alive v.good).1
        rwa [image_length] at this
      have h : x.toNat < s₁.vol.hblock.nextInode.toNat := by rw [looked.hblock,index]; exact exist
      obtain ⟨s₂,run₂,looked₂,here,success₂,calm₂,cached⟩ := getIblockC_inode looked.valid (looked.toSame.sound sound) h false
      refine .inl ⟨success,index,parent,exist,looked,calm,s₂,run₂,looked.trans looked₂,calm₂.trans calm,success₂,here,
        Placed.inode looked.valid looked₂.toSame h here,?_⟩
      rw [cached,index,v.same_inode looked.valid looked.toSame exist]
  · have stopped : Stopped s s₁ := ⟨looked,loud,faulty,error⟩
    split <;> exact .inr stopped

theorem isftype_look {s : Mount} (v : s.Valid) (sound : s.disk.Sound) (path : Path) (ftype : UInt8) :
    ∃ s' r,isftype s path ftype = some (s',r) ∧
      ((Looked s s' ∧ s'.disk.failed = s.disk.failed ∧ (s'.vol.outcome,r) = s.image.isftype path.bytes ftype) ∨
      (Stopped s s' ∧ r = false)) := by
  obtain ⟨s₁,x,p,run,result⟩ := findInode_look v sound path
  unfold isftype Image.isftype
  simp only [run,Option.bind_eq_bind,Option.bind_some]
  cases found : s.image.resolve path.bytes with
  | error e =>
    rw [found] at result
    rcases result with ⟨looked,calm,outcome,plain⟩ | stopped
    · rw [if_pos (by rw [outcome]; exact plain)]
      exact ⟨_,_,rfl,.inl ⟨looked,calm,by rw [outcome]⟩⟩
    · rw [if_pos (by rw [stopped.outcome]; decide)]
      exact ⟨_,_,rfl,.inr ⟨stopped,rfl⟩⟩
  | ok r =>
    obtain ⟨i,q⟩ := r
    rw [found] at result
    rcases result with ⟨success,index,_,exist,_,_,s₂,run₂,looked,calm,success₂,_,_,cached⟩ | stopped
    · rw [if_neg (by simp [success]),run₂]
      simp only [Option.bind_some]
      rw [if_neg (by simp [success₂]),cached]
      exact ⟨_,_,rfl,.inl ⟨looked,calm,by rw [success₂,s.image_node exist]; rfl⟩⟩
    · rw [if_pos (by rw [stopped.outcome]; decide)]
      exact ⟨_,_,rfl,.inr ⟨stopped,rfl⟩⟩

theorem front_load {s t : Mount} (v : s.Mid) {d k i j : Nat} (h : d < s.vol.hblock.nextInode.toNat)
    (dir : (s.inode d).ftype = ftypeDir) (live : (s.inode d).regs ≠ []) (less : k < (s.inode d).eof.toNat)
    (slid : Slid s t) (c : Cursor (s.inode d).regs (k / 128) i j) :
    ∃ start len,(s.inode d).rows[i]? = some (start,len) ∧ len ≠ 0 ∧
      Slid s (loadDblockC t (start + UInt32.ofNat j) false) ∧
      (((loadDblockC t (start + UInt32.ofNat j) false).disk.failed = t.disk.failed ∧
        (loadDblockC t (start + UInt32.ofNat j) false).vol.outcome = .success ∧
        (loadDblockC t (start + UInt32.ofNat j) false).Holds (s.inode d).regs (k / 128) ∧
        Cursor (s.inode d).regs (k / 128 + 1) (if (j + 1) % len.toNat = 0 then i + 1 else i) ((j + 1) % len.toNat)) ∨
      ((loadDblockC t (start + UInt32.ofNat j) false).disk.failed = true ∧
        (∃ n x,s.disk.trace.length ≤ n ∧ s.disk.rdFails n x = true) ∧
        (loadDblockC t (start + UInt32.ofNat j) false).vol.outcome = .diskRdErr)) := by
  obtain ⟨start,len,b,row,address,at_q,dirBlock,j_lt,next⟩ := front v h dir live less c
  have nonzero : len ≠ 0 := by
    intro zero
    rw [zero] at j_lt
    cases j_lt
  obtain ⟨slid',loaded⟩ := loadDblockC_slid (slid.mid v) (b := b) (by rw [slid.image]; exact dirBlock)
  refine ⟨start,len,row,nonzero,by rw [address]; exact slid.trans slid',?_⟩
  rw [address]
  rcases loaded with ⟨calm,success,held,content⟩ | ⟨loud,⟨n,x,after,bad⟩,error⟩
  · refine .inl ⟨calm,success,⟨b,at_q,held,?_⟩,?_⟩
    · rw [content,slid'.at_eq]
    · rw [wrap_next j_lt]
      by_cases last : j + 1 = len.toNat
      · rw [if_pos last] at next ⊢
        rw [if_pos rfl]; exact next
      · rw [if_neg last] at next ⊢
        rw [if_neg (by omega)]; exact next
  · refine .inr ⟨loud,⟨n,x,Nat.le_trans slid.later after,?_⟩,error⟩
    rw [← slid.rdFails]; exact bad

theorem lsLoop_look {s : Mount} (v : s.Mid) {d : Nat} (nchars : Int) (h : d < s.vol.hblock.nextInode.toNat)
    (dir : (s.inode d).ftype = ftypeDir) (live : (s.inode d).regs ≠ []) (n : Nat) {t : Mount} {k i j : Nat}
    (out : List UInt8) (slid : Slid s t) (success : t.vol.outcome = .success) (left : k + n = (s.inode d).eof.toNat)
    (w : t.Walk (s.inode d).regs k i j) :
    ∃ s' r,lsLoop (s.inode d) nchars n t k i j out = some (s',r) ∧ Slid s s' ∧
      ((s'.disk.failed = t.disk.failed ∧ s'.vol.outcome = .success ∧
        r = lsLinks nchars ((s.image.node d).links.drop k) out) ∨
      (s'.disk.failed = true ∧ s.disk.Faulty ∧ s'.vol.outcome = .diskRdErr ∧ r.1 = false ∧
        ((out.length : Int) ≤ nchars → Spare nchars out.length ((s.image.node d).links.drop k) →
          (r.2.length : Int) ≤ nchars))) := by
  have links_length : (s.image.node d).links.length = (s.inode d).eof.toNat := by
    rw [s.image_node h]
    simp [node,Inode.node,dir,live]
  induction n generalizing t k i j out with
  | zero =>
    unfold lsLoop
    rw [List.drop_eq_nil_of_le (by omega)]
    unfold lsLinks
    by_cases more : (out.length : Int) < nchars
    · rw [if_pos more,if_pos more]
      exact ⟨_,_,rfl,slid.out _,.inl ⟨rfl,rfl,rfl⟩⟩
    · rw [if_neg more,if_neg more]
      exact ⟨_,_,rfl,slid,.inl ⟨rfl,success,rfl⟩⟩
  | succ n ih =>
    have print : ∀ (t₁ : Mount) (i' j' : Nat),Slid s t₁ → t₁.vol.outcome = .success →
        Cursor (s.inode d).regs (k / 128 + 1) i' j' → t₁.Holds (s.inode d).regs (k / 128) →
        ∃ s' r,(match lsName nchars (t₁.entry k).name.toList out with
          | (out,false) => some (t₁,false,out)
          | (out,true) =>
            if (out.length : Int) < nchars then lsLoop (s.inode d) nchars n t₁ (k + 1) i' j' (out ++ [0x0A])
            else some (t₁,false,out)) = some (s',r) ∧ Slid s s' ∧
          ((s'.disk.failed = t₁.disk.failed ∧ s'.vol.outcome = .success ∧
            r = lsLinks nchars ((s.image.node d).links.drop k) out) ∨
          (s'.disk.failed = true ∧ s.disk.Faulty ∧ s'.vol.outcome = .diskRdErr ∧ r.1 = false ∧
            ((out.length : Int) ≤ nchars → Spare nchars out.length ((s.image.node d).links.drop k) →
              (r.2.length : Int) ≤ nchars))) := by
      intro t₁ i' j' slid₁ success₁ cursor holds
      have entry := holds.entry
      rw [slid₁.at_eq] at entry
      have at_k := links_getElem? h dir live (k := k) (by omega)
      rw [← entry] at at_k
      have inside := (List.getElem?_eq_some_iff.mp at_k).1
      have value := (List.getElem?_eq_some_iff.mp at_k).2
      rw [List.drop_eq_getElem_cons inside,value,lsName_cstr]
      unfold lsLinks
      have named : (t₁.entry k).link.name = (t₁.entry k).name.toList.takeWhile (· ≠ 0) := rfl
      rw [← named]
      have noNul : 0 ∉ (t₁.entry k).link.name := by
        rw [named]
        exact fun member => absurd (List.mem_takeWhile_imp member) (by decide)
      have cases := @lsName_cases nchars _ noNul out
      rcases result : lsName nchars (t₁.entry k).link.name out with ⟨out',_ | _⟩
      · exact ⟨_,_,rfl,slid₁,.inl ⟨rfl,success₁,rfl⟩⟩
      · dsimp only
        by_cases more : (out'.length : Int) < nchars
        · rw [if_pos more,if_pos more]
          obtain ⟨s',r,run,slid',final⟩ := ih (out' ++ [0x0A]) slid₁ success₁ (by omega) (.next cursor holds)
          refine ⟨s',r,run,slid',final.imp_right ?_⟩
          rintro ⟨loud,faulty,error,flag,inside⟩
          refine ⟨loud,faulty,error,flag,?_⟩
          rintro room ⟨_,rest⟩
          rcases cases room with ⟨stored,_⟩ | ⟨_,cut,_⟩
          · cases result.symm.trans stored
            refine inside (by simp at more ⊢; omega) ?_
            simpa [Nat.add_assoc] using rest
          · cases result.symm.trans cut
        · rw [if_neg more,if_neg more]
          exact ⟨_,_,rfl,slid₁,.inl ⟨rfl,success₁,rfl⟩⟩
    unfold lsLoop
    dsimp only
    unfold Walk at w
    by_cases boundary : k % 128 = 0
    · rw [if_pos boundary] at w ⊢
      obtain ⟨start,len,row,nonzero,slid₁,loaded⟩ := front_load v h dir live (by omega) slid w
      rw [row]
      dsimp only
      rcases loaded with ⟨calm,success₁,holds,cursor⟩ | ⟨loud,⟨m,x,_,bad⟩,error⟩
      · rw [if_neg (by simp [success₁]),if_neg nonzero]
        obtain ⟨s',r,run,slid',result⟩ := print _ _ _ slid₁ success₁ cursor holds
        rw [calm] at result
        exact ⟨s',r,run,slid',result⟩
      · rw [if_pos (by simp [error])]
        exact ⟨_,_,rfl,slid₁,.inr ⟨loud,⟨m,x,bad⟩,error,rfl,fun room _ => room⟩⟩
    · rw [if_neg boundary] at w ⊢
      exact print t i j slid success w.1 w.2

theorem ls_look {s : Mount} (v : s.Valid) (sound : s.disk.Sound) (path : Path) (nchars : Int)
    (dirs : ∀ i q,s.image.resolve path.bytes = .ok (i,q) → (s.image.node i).ftype = ftypeDir) :
    ∃ s' r,ls s path nchars = some (s',r) ∧
      ((Looked s s' ∧ s'.disk.failed = s.disk.failed ∧ (s'.vol.outcome,r) = s.image.ls path.bytes nchars) ∨
      (Stopped s s' ∧ r.1 = false ∧ ∀ i q,s.image.resolve path.bytes = .ok (i,q) → 0 ≤ nchars →
        Spare nchars 0 (s.image.node i).links → (r.2.length : Int) ≤ nchars)) := by
  obtain ⟨s₁,x,p,run,result⟩ := findInode_look v sound path
  unfold ls Image.ls
  simp only [run,Option.bind_eq_bind,Option.bind_some]
  cases found : s.image.resolve path.bytes with
  | error e =>
    rw [found] at result
    rcases result with ⟨looked,calm,outcome,plain⟩ | stopped
    · rw [if_pos (by rw [outcome]; exact plain)]
      exact ⟨_,_,rfl,.inl ⟨looked,calm,by rw [outcome]⟩⟩
    · rw [if_pos (by rw [stopped.outcome]; decide)]
      exact ⟨_,_,rfl,.inr ⟨stopped,rfl,fun _ _ _ natural _ => natural⟩⟩
  | ok r =>
    obtain ⟨i,q⟩ := r
    rw [found] at result
    rcases result with ⟨success,index,_,exist,_,_,s₂,run₂,looked,calm,success₂,_,_,cached⟩ | stopped
    · rw [if_neg (by simp [success]),run₂]
      simp only [Option.bind_some]
      rw [if_neg (by simp [success₂]),cached]
      have attached := Image.resolve_attached v.good found
      have alive := attached.alive v.good
      have dir := dirs i q found
      have inode : s₂.inode i = s.inode i := v.same_inode looked.valid looked.toSame exist
      have exist₂ : i < s₂.vol.hblock.nextInode.toNat := by rw [looked.hblock]; exact exist
      have live := alive.2 dir
      have positive := (attached.dirOk v.good dir).positive
      rw [s.image_node exist] at dir live positive
      obtain ⟨s',r,run',slid,final⟩ := lsLoop_look (d := i) looked.valid.toMid nchars exist₂ (by rw [inode]; exact dir)
        (by rw [inode]; exact live) (s.inode i).eof.toNat (t := s₂) (k := 0) (i := 0) (j := 0) [] (.refl looked.valid.toMid)
        success₂ (by rw [inode]; omega) (by rw [inode]; exact .start positive)
      rw [inode] at run'
      rw [looked.image v] at final
      refine ⟨s',r,run',?_⟩
      have looked' := looked.trans (slid.looked looked.valid)
      rcases final with ⟨calm',success',value⟩ | ⟨loud,faulty,error,flag,inside⟩
      · exact .inl ⟨looked',calm'.trans calm,by rw [success',value]; rfl⟩
      · refine .inr ⟨⟨looked',loud,looked.toSame.faulty.mp faulty,error⟩,flag,fun i' q' here natural spare => ?_⟩
        cases here
        exact inside natural spare
    · rw [if_pos (by rw [stopped.outcome]; decide)]
      exact ⟨_,_,rfl,.inr ⟨stopped,rfl,fun _ _ _ natural _ => natural⟩⟩

end Mount
end ArchiveOs.Fs2
