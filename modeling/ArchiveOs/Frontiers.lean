import ArchiveOs.Extents

-- An object that takes new regions at a frontier: its blocks are asked for in order,
-- each with the length of the region to take when it is not there yet. Nothing here is
-- about one file system.
namespace ArchiveOs.Extents

structure Growing where
  regs : List Region
  next : Nat
  deriving DecidableEq, Repr

-- What the object has got beyond `regs`, and the frontier, when `slots` regions and
-- blocks up to `limit` are all there is.
def Growing.ask (slots limit : Nat) (g : Growing) (q len : Nat) : Option (Growing × Nat) :=
  match (blocks g.regs)[q]? with
  | some b => some (g,b)
  | none =>
    if g.regs.length = slots ∨ limit < g.next + len then none
    else some (⟨g.regs ++ [⟨g.next,len⟩],g.next + len⟩,g.next)

-- Block after block, until one is not to be had.
def Growing.fill (slots limit : Nat) : Growing → List Nat → (q : Nat) → Growing × List Nat
  | g,[],_ => (g,[])
  | g,len :: lens,q =>
    match g.ask slots limit q len with
    | none => (g,[])
    | some (g,b) => ((g.fill slots limit lens (q + 1)).1,b :: (g.fill slots limit lens (q + 1)).2)

-- No region of length zero is asked for while there is room for one. `used` blocks are
-- there, in all but `free` of the slots, and `room` blocks lie behind the frontier.
def NoEmptyRegion : (lens : List Nat) → (q used free room : Nat) → Prop
  | [],_,_,_,_ => True
  | len :: lens,q,used,free,room =>
    if q < used then NoEmptyRegion lens (q + 1) used free room
    else free = 0 ∨ room < len ∨ (len ≠ 0 ∧ NoEmptyRegion lens (q + 1) (used + len) (free - 1) (room - len))

-- All blocks are to be had.
def Granted : (lens : List Nat) → (q used free room : Nat) → Prop
  | [],_,_,_,_ => True
  | len :: lens,q,used,free,room =>
    if q < used then Granted lens (q + 1) used free room
    else free ≠ 0 ∧ len ≤ room ∧ Granted lens (q + 1) (used + len) (free - 1) (room - len)

namespace Growing
variable {slots limit : Nat}

theorem fill_none {g : Growing} {q len : Nat} (lens : List Nat) (stop : g.ask slots limit q len = none) :
    g.fill slots limit (len :: lens) q = (g,[]) := by
  unfold fill
  rw [stop]

theorem fill_some {g g' : Growing} {q len b : Nat} (lens : List Nat) (got : g.ask slots limit q len = some (g',b)) :
    g.fill slots limit (len :: lens) q =
      ((g'.fill slots limit lens (q + 1)).1,b :: (g'.fill slots limit lens (q + 1)).2) := by
  conv => lhs; unfold fill
  rw [got]

theorem block_there {rs : List Region} {q : Nat} (inside : q < total rs) : ∃ b,(blocks rs)[q]? = some b :=
  ⟨_,List.getElem?_eq_getElem (by rw [length_blocks]; exact inside)⟩

theorem ask_there {g : Growing} {q b : Nat} (len : Nat) (at_q : (blocks g.regs)[q]? = some b) :
    g.ask slots limit q len = some (g,b) := by
  unfold ask
  rw [at_q]

variable (slots limit) in
theorem ask_beyond {g : Growing} {q : Nat} (len : Nat) (beyond : total g.regs ≤ q) :
    g.ask slots limit q len =
      if g.regs.length = slots ∨ limit < g.next + len then none
      else some (⟨g.regs ++ [⟨g.next,len⟩],g.next + len⟩,g.next) := by
  unfold ask
  rw [List.getElem?_eq_none (by rw [length_blocks]; exact beyond)]

-- The blocks that were asked for, and then the others, unless one was not to be had.
variable (slots limit) in
theorem fill_append (g : Growing) (lens more : List Nat) (q : Nat) :
    g.fill slots limit (lens ++ more) q =
      if (g.fill slots limit lens q).2.length = lens.length then
        (((g.fill slots limit lens q).1.fill slots limit more (q + lens.length)).1,
          (g.fill slots limit lens q).2 ++ ((g.fill slots limit lens q).1.fill slots limit more (q + lens.length)).2)
      else g.fill slots limit lens q := by
  induction lens generalizing g q with
  | nil => rfl
  | cons len lens ih =>
      rw [List.cons_append]
      cases got : g.ask slots limit q len with
      | none =>
          rw [fill_none _ got,fill_none _ got]
          rfl
      | some r =>
          rw [fill_some _ got,fill_some _ got,ih r.1 (q + 1)]
          have place : q + 1 + lens.length = q + (len :: lens).length := by
            rw [List.length_cons]
            omega
          dsimp only
          rw [List.length_cons,List.length_cons]
          by_cases all : (r.1.fill slots limit lens (q + 1)).2.length = lens.length
          · rw [if_pos all,if_pos (congrArg (· + 1) all),place]
            rfl
          · rw [if_neg all,if_neg fun more => all (Nat.succ.inj more)]

variable (slots limit) in
theorem fill_length_le (g : Growing) (lens : List Nat) (q : Nat) : (g.fill slots limit lens q).2.length ≤ lens.length := by
  induction lens generalizing g q with
  | nil => exact Nat.le_refl _
  | cons len lens ih =>
      cases got : g.ask slots limit q len with
      | none =>
          rw [fill_none _ got]
          exact Nat.zero_le _
      | some r =>
          rw [fill_some _ got]
          exact Nat.succ_le_succ (ih _ _)

theorem ask_appends {g g' : Growing} {q len b : Nat} (got : g.ask slots limit q len = some (g',b)) :
    ∃ new,g'.regs = g.regs ++ new ∧ g.next ≤ g'.next := by
  unfold ask at got
  split at got
  · cases got
    exact ⟨[],(List.append_nil _).symm,Nat.le_refl _⟩
  · split at got
    · cases got
    · cases got
      exact ⟨_,rfl,Nat.le_add_right _ _⟩

variable (slots limit) in
theorem fill_appends (g : Growing) (lens : List Nat) (q : Nat) :
    ∃ new,(g.fill slots limit lens q).1.regs = g.regs ++ new ∧ g.next ≤ (g.fill slots limit lens q).1.next := by
  induction lens generalizing g q with
  | nil => exact ⟨[],(List.append_nil _).symm,Nat.le_refl _⟩
  | cons len lens ih =>
      cases got : g.ask slots limit q len with
      | none =>
          rw [fill_none _ got]
          exact ⟨[],(List.append_nil _).symm,Nat.le_refl _⟩
      | some r =>
          rw [fill_some _ got]
          obtain ⟨new,regs,le⟩ := ask_appends got
          obtain ⟨new',regs',le'⟩ := ih r.1 (q + 1)
          exact ⟨new ++ new',by rw [regs',regs,List.append_assoc],Nat.le_trans le le'⟩

-- Everything that the object has lies in front of the frontier.
def Behind (g : Growing) : Prop := ∀ b ∈ blocks g.regs,b < g.next

theorem Behind.grow {g : Growing} (behind : g.Behind) (len : Nat) :
    Behind ⟨g.regs ++ [⟨g.next,len⟩],g.next + len⟩ := by
  intro b member
  rw [blocks_append,List.mem_append] at member
  rcases member with old | new
  · exact Nat.lt_add_right _ (behind b old)
  · obtain ⟨r,here,_,bound⟩ := mem_blocks.mp new
    rw [List.mem_singleton.mp here] at bound
    exact bound

theorem blocks_grow (rs : List Region) (next : Nat) {len : Nat} (positive : len ≠ 0) :
    (blocks (rs ++ [⟨next,len⟩]))[total rs]? = some next := by
  rw [blocks_append,List.getElem?_append_right (Nat.le_of_eq (length_blocks rs)),length_blocks,Nat.sub_self,
    getElem?_blocks_cons]
  exact if_pos (Nat.pos_of_ne_zero positive)

theorem blocks_keep {rs : List Region} {q b : Nat} (new : List Region) (at_q : (blocks rs)[q]? = some b) :
    (blocks (rs ++ new))[q]? = some b := by
  rw [blocks_append,List.getElem?_append_left (List.getElem?_eq_some_iff.mp at_q).1]
  exact at_q

-- Blocks that were to be had are where the object has them in the end, in front of the
-- frontier, and all new regions hold something.
structure Filled (g g' : Growing) (q : Nat) (got : List Nat) : Prop where
  placed : ∀ j b,got[j]? = some b → (blocks g'.regs)[q + j]? = some b
  behind : ∀ b ∈ got,b < g'.next
  positive : ∃ new,g'.regs = g.regs ++ new ∧ ∀ r ∈ new,0 < r.len

theorem Filled.none (g : Growing) (q : Nat) : Filled g g q [] :=
  ⟨fun _ _ wrong => (by cases wrong),fun _ member => (by cases member),[],(List.append_nil _).symm,
    fun _ member => (by cases member)⟩

theorem Filled.step {g g₁ g' : Growing} {q b : Nat} {got : List Nat} {new : List Region} (filled : Filled g₁ g' (q + 1) got)
    (regs : g₁.regs = g.regs ++ new) (positive : ∀ r ∈ new,0 < r.len) (at_q : (blocks g₁.regs)[q]? = some b)
    (behind : g₁.Behind) (le : g₁.next ≤ g'.next) : Filled g g' q (b :: got) := by
  obtain ⟨new',regs',positive'⟩ := filled.positive
  refine ⟨?_,?_,new ++ new',by rw [regs',regs,List.append_assoc],?_⟩
  · intro j c here
    cases j with
    | zero =>
        cases here
        rw [regs']
        exact blocks_keep new' at_q
    | succ j =>
        have place := filled.placed j c here
        rwa [Nat.add_assoc,Nat.add_comm 1 j] at place
  · intro c member
    rcases List.mem_cons.mp member with rfl | rest
    · exact Nat.lt_of_lt_of_le (behind c (List.mem_of_getElem? at_q)) le
    · exact filled.behind c rest
  · intro r member
    rcases List.mem_append.mp member with old | late
    · exact positive r old
    · exact positive' r late

theorem filled_of_steady {g : Growing} {lens : List Nat} {q : Nat} (near : q ≤ total g.regs)
    (behind : g.Behind) (slot : g.regs.length ≤ slots) (fits : g.next ≤ limit)
    (steady : NoEmptyRegion lens q (total g.regs) (slots - g.regs.length) (limit - g.next)) :
    Filled g (g.fill slots limit lens q).1 q (g.fill slots limit lens q).2 := by
  induction lens generalizing g q with
  | nil => exact .none g q
  | cons len lens ih =>
      unfold NoEmptyRegion at steady
      by_cases there : q < total g.regs
      · rw [if_pos there] at steady
        obtain ⟨b,at_q⟩ := block_there there
        rw [fill_some _ (ask_there len at_q)]
        obtain ⟨_,_,le⟩ := fill_appends slots limit g lens (q + 1)
        exact (ih there behind slot fits steady).step (List.append_nil _).symm (fun _ member => (by cases member)) at_q behind le
      · rw [if_neg there] at steady
        have last : q = total g.regs := Nat.le_antisymm near (Nat.not_lt.mp there)
        have beyond := ask_beyond slots limit len (Nat.not_lt.mp there)
        by_cases stop : g.regs.length = slots ∨ limit < g.next + len
        · rw [if_pos stop] at beyond
          rw [fill_none _ beyond]
          exact .none g q
        · rw [if_neg stop] at beyond
          rw [fill_some _ beyond]
          rcases steady with full | short | ⟨positive,steady⟩
          · exact (stop (.inl (by omega))).elim
          · exact (stop (.inr (by omega))).elim
          · obtain ⟨_,_,le⟩ := fill_appends slots limit
              ⟨g.regs ++ [⟨g.next,len⟩],g.next + len⟩ lens (q + 1)
            have more : total (g.regs ++ [⟨g.next,len⟩]) = total g.regs + len := by simp
            have count : (g.regs ++ [(⟨g.next,len⟩ : Region)]).length = g.regs.length + 1 := by simp
            refine (ih (g := ⟨g.regs ++ [⟨g.next,len⟩],g.next + len⟩) (by dsimp only; omega) (behind.grow len)
              (by dsimp only; omega) (by dsimp only; omega) ?_).step rfl ?_ ?_ (behind.grow len) le
            · dsimp only
              rw [more,count,Nat.sub_add_eq,Nat.sub_add_eq]
              exact steady
            · intro r member
              rw [List.mem_singleton.mp member]
              exact Nat.pos_of_ne_zero positive
            · rw [last]
              exact blocks_grow _ _ positive

theorem steady_of_positive {g : Growing} {lens : List Nat} {q : Nat} {new : List Region} (fits : g.next ≤ limit)
    (regs : (g.fill slots limit lens q).1.regs = g.regs ++ new) (positive : ∀ r ∈ new,0 < r.len) :
    NoEmptyRegion lens q (total g.regs) (slots - g.regs.length) (limit - g.next) := by
  induction lens generalizing g q new with
  | nil => trivial
  | cons len lens ih =>
      unfold NoEmptyRegion
      by_cases there : q < total g.regs
      · rw [if_pos there]
        obtain ⟨b,at_q⟩ := block_there there
        rw [fill_some _ (ask_there len at_q)] at regs
        exact ih fits regs positive
      · rw [if_neg there]
        have beyond := ask_beyond slots limit len (Nat.not_lt.mp there)
        by_cases stop : g.regs.length = slots ∨ limit < g.next + len
        · rcases stop with full | short
          · exact .inl (by omega)
          · exact .inr (.inl (by omega))
        · rw [if_neg stop] at beyond
          rw [fill_some _ beyond] at regs
          obtain ⟨late,regs',_⟩ := fill_appends slots limit
            ⟨g.regs ++ [⟨g.next,len⟩],g.next + len⟩ lens (q + 1)
          have split : new = ⟨g.next,len⟩ :: late := by
            rw [regs,List.append_assoc] at regs'
            exact List.append_cancel_left regs'
          have more : total (g.regs ++ [⟨g.next,len⟩]) = total g.regs + len := by simp
          have count : (g.regs ++ [(⟨g.next,len⟩ : Region)]).length = g.regs.length + 1 := by simp
          have rest := ih (g := ⟨g.regs ++ [⟨g.next,len⟩],g.next + len⟩) (by dsimp only; omega) regs'
            fun r member => positive r (by rw [split]; exact List.mem_cons_of_mem _ member)
          dsimp only at rest
          rw [more,count,Nat.sub_add_eq,Nat.sub_add_eq] at rest
          have first := positive ⟨g.next,len⟩ (by rw [split]; exact List.mem_cons_self)
          exact .inr (.inr ⟨Nat.pos_iff_ne_zero.mp first,rest⟩)

theorem granted_iff {g : Growing} {lens : List Nat} {q : Nat} (slot : g.regs.length ≤ slots) (fits : g.next ≤ limit) :
    Granted lens q (total g.regs) (slots - g.regs.length) (limit - g.next) ↔
      (g.fill slots limit lens q).2.length = lens.length := by
  induction lens generalizing g q with
  | nil => exact ⟨fun _ => rfl,fun _ => trivial⟩
  | cons len lens ih =>
      unfold Granted
      by_cases there : q < total g.regs
      · obtain ⟨b,at_q⟩ := block_there there
        rw [if_pos there,fill_some _ (ask_there len at_q),ih slot fits,List.length_cons,List.length_cons]
        exact Nat.succ_inj.symm
      · rw [if_neg there]
        have beyond := ask_beyond slots limit len (Nat.not_lt.mp there)
        by_cases stop : g.regs.length = slots ∨ limit < g.next + len
        · rw [if_pos stop] at beyond
          rw [fill_none _ beyond]
          refine ⟨fun ⟨free,room,_⟩ => ?_,fun wrong => (by cases wrong)⟩
          rcases stop with full | short
          · exact (free (by omega)).elim
          · omega
        · rw [if_neg stop] at beyond
          obtain ⟨slot',fits'⟩ := not_or.mp stop
          have more : total (g.regs ++ [⟨g.next,len⟩]) = total g.regs + len := by simp
          have count : (g.regs ++ [(⟨g.next,len⟩ : Region)]).length = g.regs.length + 1 := by simp
          have rest := ih (g := ⟨g.regs ++ [⟨g.next,len⟩],g.next + len⟩) (q := q + 1) (by dsimp only; omega)
            (by dsimp only; omega)
          dsimp only at rest
          rw [more,count,Nat.sub_add_eq,Nat.sub_add_eq] at rest
          rw [fill_some _ beyond,List.length_cons,List.length_cons,rest]
          exact ⟨fun ⟨_,_,all⟩ => congrArg Nat.succ all,fun all => ⟨by omega,by omega,Nat.succ.inj all⟩⟩

-- Behind the end of the object the next block is the one at the frontier, if there is one.
theorem fill_beyond {g : Growing} {q : Nat} (lens : List Nat) (beyond : total g.regs ≤ q) :
    g.fill slots limit lens q = (g,[]) ∨ g.next ∈ (g.fill slots limit lens q).2 := by
  cases lens with
  | nil => exact .inl rfl
  | cons len lens =>
      have ask := ask_beyond slots limit len beyond
      split at ask
      · exact .inl (fill_none _ ask)
      · rw [fill_some _ ask]
        exact .inr List.mem_cons_self

-- New regions begin at the frontier or behind it.
variable (slots limit) in
theorem fill_ahead (g : Growing) (lens : List Nat) (q : Nat) :
    ∃ new,(g.fill slots limit lens q).1.regs = g.regs ++ new ∧ ∀ b ∈ blocks new,g.next ≤ b := by
  induction lens generalizing g q with
  | nil => exact ⟨[],(List.append_nil _).symm,fun _ member => (by cases member)⟩
  | cons len lens ih =>
      cases got : g.ask slots limit q len with
      | none =>
          rw [fill_none _ got]
          exact ⟨[],(List.append_nil _).symm,fun _ member => (by cases member)⟩
      | some r =>
          rw [fill_some _ got]
          obtain ⟨late,regs',ahead⟩ := ih r.1 (q + 1)
          unfold ask at got
          split at got
          · cases got
            exact ⟨late,regs',ahead⟩
          · split at got
            · cases got
            · cases got
              refine ⟨⟨g.next,len⟩ :: late,by rw [regs',List.append_assoc]; rfl,fun b member => ?_⟩
              rw [blocks_cons,List.mem_append,Region.mem_blocks] at member
              rcases member with first | rest
              · exact first.1
              · exact Nat.le_trans (Nat.le_add_right _ _) (ahead b rest)

theorem fill_far {g : Growing} {len q : Nat} (lens : List Nat) (far : total g.regs < q) (slot : g.regs.length ≠ slots)
    (room : g.next + len ≤ limit) (positive : len ≠ 0) :
    (g.fill slots limit (len :: lens) q).2[0]? = some g.next ∧ g.next ∈ blocks (g.fill slots limit (len :: lens) q).1.regs ∧
      (blocks (g.fill slots limit (len :: lens) q).1.regs)[q]? ≠ some g.next := by
  have beyond := ask_beyond slots limit len far.le
  rw [if_neg (not_or.mpr ⟨slot,Nat.not_lt.mpr room⟩)] at beyond
  rw [fill_some _ beyond]
  obtain ⟨late,regs,ahead⟩ := fill_ahead slots limit ⟨g.regs ++ [⟨g.next,len⟩],g.next + len⟩ lens (q + 1)
  dsimp only at regs ahead ⊢
  refine ⟨rfl,?_,fun here => ?_⟩
  · rw [regs]
    exact List.mem_of_getElem? (blocks_keep late (blocks_grow _ _ positive))
  · rw [regs,List.append_assoc,blocks_append,List.getElem?_append_right (by rw [length_blocks]; exact far.le),length_blocks,
      List.singleton_append,getElem?_blocks_cons] at here
    split at here
    · have same : g.next + (q - total g.regs) = g.next := Option.some.inj here
      omega
    · have behind := ahead _ (List.mem_of_getElem? here)
      omega

-- After a region of length zero the object stays too short, or a block is handed out twice.
theorem wasted_of_not_steady {g : Growing} {lens : List Nat} {q : Nat} (near : q ≤ total g.regs) (fits : g.next ≤ limit)
    (slot : g.regs.length ≤ slots)
    (unsteady : ¬ NoEmptyRegion lens q (total g.regs) (slots - g.regs.length) (limit - g.next)) :
    total (g.fill slots limit lens q).1.regs < q + (g.fill slots limit lens q).2.length ∨
      ¬ (g.fill slots limit lens q).2.Nodup := by
  induction lens generalizing g q with
  | nil => exact (unsteady trivial).elim
  | cons len lens ih =>
      -- The same for the block in front of the others.
      have step : ∀ {g₁ : Growing} {b : Nat},(total (g₁.fill slots limit lens (q + 1)).1.regs <
            q + 1 + (g₁.fill slots limit lens (q + 1)).2.length ∨ ¬ (g₁.fill slots limit lens (q + 1)).2.Nodup) →
          total (g₁.fill slots limit lens (q + 1)).1.regs < q + (b :: (g₁.fill slots limit lens (q + 1)).2).length ∨
            ¬ (b :: (g₁.fill slots limit lens (q + 1)).2).Nodup := by
        rintro g₁ b (short | twice)
        · rw [List.length_cons]
          exact .inl (by omega)
        · exact .inr fun nodup => twice (List.nodup_cons.mp nodup).2
      unfold NoEmptyRegion at unsteady
      by_cases there : q < total g.regs
      · rw [if_pos there] at unsteady
        obtain ⟨b,at_q⟩ := block_there there
        rw [fill_some _ (ask_there len at_q)]
        exact step (ih there fits slot unsteady)
      · rw [if_neg there] at unsteady
        have last : q = total g.regs := Nat.le_antisymm near (Nat.not_lt.mp there)
        have beyond := ask_beyond slots limit len (Nat.not_lt.mp there)
        obtain ⟨free,room,rest⟩ := not_or.mp unsteady |>.imp_right not_or.mp
        rw [if_neg (by omega)] at beyond
        rw [fill_some _ beyond]
        by_cases zero : len = 0
        · subst zero
          have same : total (g.regs ++ [⟨g.next,0⟩]) = total g.regs := by simp
          have behind := @fill_beyond slots limit ⟨g.regs ++ [⟨g.next,0⟩],g.next + 0⟩ (q + 1) lens (by dsimp only; omega)
          rcases behind with stop | again
          · rw [stop]
            dsimp only
            rw [same]
            exact .inl (by simp only [List.length_cons,List.length_nil]; omega)
          · exact .inr fun nodup => (List.nodup_cons.mp nodup).1 again
        · have more : total (g.regs ++ [⟨g.next,len⟩]) = total g.regs + len := by simp
          have count : (g.regs ++ [(⟨g.next,len⟩ : Region)]).length = g.regs.length + 1 := by simp
          refine step (ih (g := ⟨g.regs ++ [⟨g.next,len⟩],g.next + len⟩) ?_ ?_ ?_ fun steady => ?_)
          · dsimp only
            omega
          · dsimp only
            omega
          · dsimp only
            omega
          · dsimp only at steady
            rw [more,count,Nat.sub_add_eq,Nat.sub_add_eq] at steady
            exact rest ⟨zero,steady⟩

end Growing
end ArchiveOs.Extents
