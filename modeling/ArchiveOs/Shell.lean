import ArchiveOs.Chars

-- sh.c: what the shell reads from the UART and passes on. The console (prompts and
-- answers) and the calls of the built-in commands are left out.
namespace ArchiveOs.Shell
open Chars

abbrev newline : UInt8 := 0x0A
abbrev space : UInt8 := 0x20

def xSize : Nat := 1024

-- `n` turns are left. Behind the last one no value is returned (none), and nothing
-- happens before the UART has a character.
def xgets (base : Nat) : (n i : Nat) → (x input : List UInt8) → Option (List UInt8 × Nat × List UInt8)
  | 0,_,_,_ => none
  | _ + 1,_,_,[] => none
  | n + 1,i,x,c :: input => do
    let x ← store x (base + i) c
    if c = newline then some (← store x (base + i) 0,i,input) else xgets base n (i + 1) x input

def text (s : List Char) : List UInt8 := s.map fun c => UInt8.ofNat c.toNat

def exitWord : List UInt8 := text ['e','x','i','t']

def tools : List (List UInt8) :=
  [text ['c','d'],text ['r','m'],text ['m','k','f','i','l','e'],text ['m','k','d','i','r'],
    text ['i','s','f','i','l','e'],text ['i','s','d','i','r'],text ['l','s'],text ['g','e','t','w','d'],
    text ['k','i','l','l'],text ['s','e','t','p']]

-- strtok(x, " "): a NUL behind the first word.
def strtok (x : List UInt8) : List UInt8 :=
  let s := cstring x 0
  let lead := (s.takeWhile (· = space)).length
  let word := ((s.drop lead).takeWhile (· ≠ space)).length
  if lead + word < s.length then x.set (lead + word) 0 else x

inductive Tool where
  | exits
  | done
  | other (x : List UInt8)

def xtool (x : List UInt8) : Tool :=
  if cstring x 0 = exitWord then .exits
  else
    let x := strtok x
    if cstring x 0 ∈ tools then .done else .other x

-- The strings that xaction gets.
structure Action where
  cmd : List UInt8
  arg : List UInt8
  out : List UInt8
  deriving DecidableEq

inductive Round where
  | exits
  | tool
  | action (a : Action) (x input : List UInt8)

-- One round of sh_main. The sizes are those that it hands to xgets.
def shMain (x input : List UInt8) : Option Round := do
  let (x,lim,input) ← xgets 0 xSize 0 x input
  match xtool x with
  | .exits => some .exits
  | .done => some .tool
  | .other x =>
    let arg := lim + 1
    let (x,n,input) ← xgets arg (xSize - lim) 0 x input
    let lim := lim + n
    let out := lim + 1
    let (x,_,input) ← xgets out (xSize - lim) 0 x input
    some (.action ⟨cstring x 0,cstring x arg,cstring x out⟩ x input)

-- What is typed: lines without a newline, each ended by one.
def typed (cmd arg out : List UInt8) : List UInt8 := cmd ++ newline :: (arg ++ newline :: (out ++ newline :: []))

-- The round comes to its call of xaction, with the lines as they were typed.
def PassesOn (x : List UInt8) (cmd arg out rest : List UInt8) : Prop :=
  ∃ x',shMain x (typed cmd arg out ++ rest) = some (.action ⟨cmd,arg,out⟩ x' rest)

section Gets
variable {line old behind before rest : List UInt8} {base n i : Nat}

theorem xgets_line (noLine : newline ∉ line) (room : old.length = line.length + 1) (turns : line.length < n)
    (place : before.length = base + i) :
    xgets base n i (before ++ (old ++ behind)) (line ++ newline :: rest) =
      some (before ++ (line ++ 0 :: behind),i + line.length,rest) := by
  induction line generalizing before old n i with
  | nil =>
      obtain ⟨d,rfl⟩ := List.length_eq_one_iff.mp room
      obtain ⟨n,rfl⟩ : ∃ m,n = m + 1 := Nat.exists_eq_succ_of_ne_zero (Nat.ne_of_gt turns)
      show (store (before ++ d :: behind) (base + i) newline).bind
        (fun x => if newline = newline then (store x (base + i) 0).bind fun x => some (x,i,rest) else xgets base n (i + 1) x rest) = _
      rw [← place,store_append,Option.bind_some,if_pos rfl,store_append]
      rfl
  | cons c line ih =>
      rw [List.mem_cons,not_or] at noLine
      rw [List.length_cons] at room turns
      obtain ⟨d,old,rfl⟩ := List.exists_cons_of_length_eq_add_one room
      obtain ⟨n,rfl⟩ : ∃ m,n = m + 1 := Nat.exists_eq_succ_of_ne_zero (Nat.ne_of_gt (Nat.lt_of_le_of_lt (Nat.zero_le _) turns))
      have next := @ih old (before ++ [c]) n (i + 1) noLine.2 (Nat.succ.inj room) (Nat.lt_of_succ_lt_succ turns)
        (by rw [List.length_append,place]; rfl)
      show (store (before ++ d :: (old ++ behind)) (base + i) c).bind
        (fun x => if c = newline then _ else xgets base n (i + 1) x (line ++ newline :: rest)) = _
      rw [← place,store_append,Option.bind_some,if_neg (Ne.symm noLine.1)]
      simpa [Nat.add_assoc,Nat.add_comm 1] using next

end Gets

section Tool
variable {s behind : List UInt8}

theorem strtok_word (noSpace : space ∉ s) (noNul : 0 ∉ s) : strtok (s ++ 0 :: behind) = s ++ 0 :: behind := by
  have whole : cstring (s ++ 0 :: behind) 0 = s := cstring_append [] behind noNul
  unfold strtok
  rw [whole]
  have lead : s.takeWhile (· = space) = [] := by
    cases s with
    | nil => rfl
    | cons c s =>
        rw [List.mem_cons,not_or] at noSpace
        exact List.takeWhile_cons_of_neg (by simpa using Ne.symm noSpace.1)
  have word : s.takeWhile (· ≠ space) = s :=
    List.takeWhile_eq_self_iff.mpr fun c member => decide_eq_true fun same => noSpace (same ▸ member)
  dsimp only
  rw [lead,List.length_nil,List.drop_zero,word,if_neg (by omega)]

theorem xtool_other (noSpace : space ∉ s) (noNul : 0 ∉ s) (stays : s ≠ exitWord) (plain : s ∉ tools) :
    xtool (s ++ 0 :: behind) = .other (s ++ 0 :: behind) := by
  have whole : cstring (s ++ 0 :: behind) 0 = s := cstring_append [] behind noNul
  unfold xtool
  rw [whole,if_neg stays,strtok_word noSpace noNul]
  dsimp only
  rw [whole,if_neg plain]

end Tool

section Main

theorem cut (x : List UInt8) (n : Nat) (inside : n ≤ x.length) : ∃ a b,x = a ++ b ∧ a.length = n :=
  ⟨x.take n,x.drop n,(List.take_append_drop n x).symm,List.length_take_of_le inside⟩

variable {cmd arg out rest : List UInt8}

theorem shMain_noNul {x input x' : List UInt8} {a : Action} (round : shMain x input = some (.action a x' rest)) :
    0 ∉ a.cmd ∧ 0 ∉ a.arg ∧ 0 ∉ a.out := by
  obtain ⟨⟨x₁,lim,input₁⟩,_,round⟩ := Option.bind_eq_some_iff.mp round
  dsimp only at round
  cases tool : xtool x₁ with
  | exits =>
      rw [tool] at round
      cases round
  | done =>
      rw [tool] at round
      cases round
  | other x₂ =>
      rw [tool] at round
      obtain ⟨⟨x₃,n,input₂⟩,_,round⟩ := Option.bind_eq_some_iff.mp round
      obtain ⟨⟨x₄,_,input₃⟩,_,round⟩ := Option.bind_eq_some_iff.mp round
      cases round
      exact ⟨cstring_noNul _ _,cstring_noNul _ _,cstring_noNul _ _⟩

theorem shMain_strings (x : Vector UInt8 xSize) (lines : newline ∉ cmd ∧ newline ∉ arg ∧ newline ∉ out)
    (fits : cmd.length + arg.length + out.length ≤ 1021) (noNul : 0 ∉ cmd ∧ 0 ∉ arg ∧ 0 ∉ out) (noSpace : space ∉ cmd)
    (stays : cmd ≠ exitWord) (plain : cmd ∉ tools) (rest : List UInt8) :
    ∃ x',shMain x.toList (typed cmd arg out ++ rest) = some (.action ⟨cmd,arg ++ out,out⟩ x' rest) := by
  have size : x.toList.length = 1024 := Vector.length_toList
  -- Where each line is stored, and what is behind it.
  obtain ⟨a,behind,whole,la⟩ := cut x.toList (cmd.length + 1) (by omega)
  have left := congrArg List.length whole
  rw [List.length_append] at left
  obtain ⟨b,behind,rfl,lb⟩ := cut behind (arg.length + 1) (by omega)
  rw [List.length_append] at left
  obtain ⟨c,d,rfl,lc⟩ := cut behind out.length (by omega)
  have first := @xgets_line cmd a (b ++ (c ++ d)) [] (arg ++ newline :: (out ++ newline :: rest)) 0 xSize 0 lines.1 la
    (by unfold xSize; omega) rfl
  have second := @xgets_line arg b (c ++ d) (cmd ++ [0]) (out ++ newline :: rest) (cmd.length + 1) (xSize - cmd.length) 0
    lines.2.1 lb (by unfold xSize; omega) (by simp)
  have third := @xgets_line out (0 :: c) d (cmd ++ 0 :: arg) rest (cmd.length + arg.length + 1)
    (xSize - (cmd.length + arg.length)) 0 lines.2.2 (by simp [lc]) (by unfold xSize; omega) (by simp; omega)
  unfold shMain typed
  rw [whole]
  simp only [List.append_assoc,List.cons_append,List.nil_append,Nat.zero_add] at first second third ⊢
  rw [first]
  simp only [Option.bind_eq_bind,Option.bind_some,xtool_other noSpace noNul.1 stays plain]
  rw [second]
  simp only [Option.bind_some]
  rw [third]
  simp only [Option.bind_some]
  have one := cstring_append (s := cmd) [] (arg ++ (out ++ 0 :: d)) noNul.1
  have two := cstring_append (s := arg ++ out) (cmd ++ [0]) d (by simp [noNul])
  have three := cstring_append (s := out) (cmd ++ 0 :: arg) d noNul.2.2
  rw [List.length_append] at two three
  simp only [List.append_assoc,List.cons_append,List.nil_append] at one two three
  refine ⟨_,congrArg some (congrArg (Round.action · _ rest) ?_)⟩
  rw [Action.mk.injEq]
  exact ⟨one,two,three⟩

theorem passesOn_empty (x : Vector UInt8 xSize) (lines : newline ∉ cmd ∧ newline ∉ arg ∧ newline ∉ out)
    (fits : cmd.length + arg.length + out.length ≤ 1021) (noSpace : space ∉ cmd) (stays : cmd ≠ exitWord)
    (plain : cmd ∉ tools) (passes : PassesOn x.toList cmd arg out rest) : 0 ∉ cmd ∧ 0 ∉ arg ∧ out = [] := by
  obtain ⟨x',round⟩ := passes
  obtain ⟨noNul,noNul',noNul''⟩ := shMain_noNul round
  obtain ⟨_,round'⟩ := shMain_strings x lines fits ⟨noNul,noNul',noNul''⟩ noSpace stays plain rest
  rw [round] at round'
  injection round' with same
  injection same with strings
  injection strings with _ longer
  exact ⟨noNul,noNul',List.append_right_eq_self.mp longer.symm⟩

-- The shell passes the lines on if and only if the third one is empty (and none of the
-- others has a NUL in it).
theorem shell_passes_iff (x : Vector UInt8 xSize) (lines : newline ∉ cmd ∧ newline ∉ arg ∧ newline ∉ out)
    (fits : cmd.length + arg.length + out.length ≤ 1021) (noSpace : space ∉ cmd) (stays : cmd ≠ exitWord)
    (plain : cmd ∉ tools) (rest : List UInt8) :
    PassesOn x.toList cmd arg out rest ↔ 0 ∉ cmd ∧ 0 ∉ arg ∧ out = [] := by
  constructor
  · exact passesOn_empty x lines fits noSpace stays plain
  · rintro ⟨noNul,noNul',rfl⟩
    obtain ⟨x',round⟩ := shMain_strings x lines fits ⟨noNul,noNul',List.not_mem_nil⟩ noSpace stays plain rest
    rw [List.append_nil] at round
    exact ⟨x',round⟩

end Main

-- "P3" with the argument "b c" and without an output file, and with a file "a".
theorem shell_passes_word : PassesOn (Vector.replicate xSize 0).toList (text ['P','3']) (text ['b',' ','c']) [] [] :=
  (shell_passes_iff (Vector.replicate xSize 0) (by decide) (by decide) (by decide) (by decide) (by decide) []).mpr
    (by decide)

theorem shell_joins_lines : ¬ PassesOn (Vector.replicate xSize 0).toList (text ['P','3']) [] (text ['a']) [] := by
  intro passes
  obtain ⟨_,_,empty⟩ := passesOn_empty (Vector.replicate xSize 0) (by decide) (by decide) (by decide) (by decide) (by decide) passes
  exact absurd empty (by decide)

end ArchiveOs.Shell
