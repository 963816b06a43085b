import ArchiveOs.Counts
import ArchiveOs.Runners

-- Reference counts from the reset on.
namespace ArchiveOs.Kernel
open Fs2
open References
open Prog

-- The conditions under which the objects go on counting their descriptors: an exit leaves
-- no pipe behind that nobody else has, a kill hits nobody with an open file or pipe, an open
-- that gets as far as an object goes all the way, and a close does not take the last
-- descriptor of one end of a pipe.
def KeepsCounts (m : Machine) : Event → Prop
  | .irq _ => True
  | .svc id => Steady m (.svc id) ∧
      (id.toNat = 0x04 → m.descs.Shares m.current) ∧
      (id.toNat = 0x06 → ∀ i : Fin pcbSize,toInt (m.ctx.gpr 0) = i.val → m.descs.live i = true → m.descs.Plain i) ∧
      (id.toNat = 0x0B → m.Fetches (m.ctx.gpr 1).toUInt8 → m.Copies (m.ctx.gpr 0) (m.ctx.gpr 1).toUInt8) ∧
      (id.toNat = 0x0C → ∀ fd : Fin fdtSize,toInt (m.ctx.gpr 0) = fd.val → ∀ k : Fin openSize,
        m.descs.fdt m.current fd = k.val → m.descs.PipeAt k → 1 < m.descs.refs k)

section Step
variable {m m' : Machine} {e : Event}

theorem KeepsCounts.steady (keepsCounts : KeepsCounts m e) : Steady m e := by
  cases e with
  | irq id => trivial
  | svc id => exact keepsCounts.1

theorem Steady.orderly (runner : m.procs.Runner) (steady : Steady m e) : Orderly m e := by
  cases e with
  | irq id => trivial
  | svc id => exact ⟨steady.1,fun _ => runner.live⟩

-- Any call but a fork, an exit and a kill leaves the bit map of the table alone.
theorem asked_alloc {n : Nat} (other : n ∉ [0x03,0x04,0x06]) (asked : SvcAsked m m' n) : m'.pcballoc = m.pcballoc := by
  unfold SvcAsked at asked
  split at asked
  case h_4 => exact asked
  all_goals exact absurd (by decide) other

theorem svc_counted {id : UInt32} (counted : m.descs.Counted) (runner : m.procs.Runner) (keepsCounts : KeepsCounts m (.svc id))
    (run : (svc id).Ends m () m') : m'.descs.Counted := by
  have asked : SvcAsked m m' id.toNat := (handle_did (e := .svc id) run).asked (keepsCounts.steady.orderly runner)
  have lives : m.descs.live m.current = true := runner.live
  obtain ⟨steady,shares,plain,copies,more⟩ := keepsCounts
  by_cases aside : id.toNat ∉ [0x01,0x02,0x03,0x04,0x0B,0x0C,0x0D,0x0E,0x10,0x11,0x12,0x13,0x14,0x15,0x16]
  · have side : m'.fileSide = m.fileSide := (@svc_apart _ (fun s => s) id aside).same run
    by_cases kill : id.toNat = 0x06
    · rw [kill] at asked
      exact killed_counted counted side asked (plain kill)
    · rw [descs_of side (asked_alloc (by simp only [List.mem_cons,List.not_mem_nil,or_false] at *; omega) asked)]
      exact counted
  have alloc : id.toNat ∉ [0x03,0x04,0x06] → m'.pcballoc = m.pcballoc := fun other => asked_alloc other asked
  have memory := steady.1
  unfold svc at run
  generalize id.toNat = n at *
  split at run
  case h_2 => exact counted.keep (svcWrite_alike run)
  case h_3 => exact counted.keep (svcRead_alike run)
  case h_4 => exact (doFork_counted counted lives (memory rfl) run).1
  case h_5 => exact (svcExit_counted counted lives (shares rfl) asked.2 run).1
  case h_12 => exact svcOpen_counted counted lives (alloc (by decide)) (copies rfl) run
  case h_13 => exact (svcClose_counted counted lives (more rfl) run).1
  case h_14 => exact svcFdSwap_counted counted run
  case h_15 => exact (svcPipe_counted counted lives (alloc (by decide)) run).1
  case h_17 => rw [path_still.same run]; exact counted
  case h_18 => rw [path_still.same run]; exact counted
  case h_19 => rw [svcCd_still.same run]; exact counted
  case h_20 => rw [svcLs_still.same run]; exact counted
  case h_21 => rw [path_still.same run]; exact counted
  case h_22 => rw [path_still.same run]; exact counted
  case h_23 => rw [path_still.same run]; exact counted
  case h_25 =>
    simp only [List.mem_cons,List.not_mem_nil,or_false,imp_false] at *
    omega
  all_goals exact absurd (by decide) aside

theorem handle_counted (counted : m.descs.Counted) (runner : m.procs.Runner) (keepsCounts : KeepsCounts m e)
    (run : (handle e).Ends m () m') :
    m'.descs.Counted := by
  cases e with
  | svc id => exact svc_counted counted runner keepsCounts run
  | irq id =>
      have side : m'.fileSide = m.fileSide := (@irq_apart _ (fun s => s) id).same run
      have orderly : Orderly m (.irq id) := trivial
      rw [descs_of side ((handle_did (e := .irq id) run).asked orderly)]
      exact counted

end Step

-- A table of objects that are all of the UART.
structure Descs.Uarts (d : Descs) : Prop where
  object : ∀ k p,d.openft k = some p → ∃ e,d.fdtes p = some e ∧ e.type = .uart
  apart : ∀ k l p,d.openft k = some p → d.openft l = some p → k = l

theorem Descs.Uarts.counted {d : Descs} (uarts : d.Uarts)
    (leads : ∀ i fd,d.live i = true → d.fdt i fd = -1 ∨ ∃ k : Fin openSize,d.fdt i fd = k.val ∧ (d.openft k).isSome) :
    d.Counted := by
  refine ⟨leads,fun k p entry => ?_,uarts.apart⟩
  obtain ⟨e,there,uart⟩ := uarts.object k p entry
  refine ⟨e,there,?_,fun kind => absurd uart kind,fun kind => absurd uart kind,fun pipe => ?_⟩
  · rw [uart]
    decide
  · cases uart.symm.trans pipe

section Boot
variable {m m' : Machine}

theorem openUart_uarts {i : Fin openSize} {mode : Fmode} (uarts : m.descs.Uarts) (run : (openUart i mode).Ends m () m') :
    m'.descs.Uarts ∧ ∃ p,m'.openft = put m.openft i (some p) := by
  obtain ⟨p,t,given,run⟩ := ends_bind.mp run
  obtain ⟨⟨q,e⟩,_,held,run⟩ := ends_bind.mp run
  obtain ⟨rfl,_,rfl⟩ := deref_ends.mp held
  obtain ⟨useful,rfl,rfl⟩ := mallocFdte_allots.mp given
  obtain ⟨_,_,set,run⟩ := ends_bind.mp run
  cases ends_update.mp set
  cases ends_update.mp run
  have fresh : m.heap.fdtes (m.heap.answer m.heap.asked) = none := by
    rw [← Option.not_isSome_iff_eq_none]
    exact fun some => useful (.inr some)
  have known : ∀ l q,m.openft l = some q → q ≠ m.heap.answer m.heap.asked := by
    rintro l q entry rfl
    obtain ⟨_,there,_⟩ := uarts.object l _ entry
    cases fresh.symm.trans there
  refine ⟨⟨fun l q entry => ?_,fun l l' q one two => ?_⟩,_,rfl⟩
  · change put m.openft i _ l = some q at entry
    by_cases here : l = i
    · rw [here,put_self] at entry
      cases entry
      exact ⟨_,if_pos rfl,rfl⟩
    · rw [put_other _ _ here] at entry
      obtain ⟨e',there,uart⟩ := uarts.object l q entry
      exact ⟨e',(if_neg (known l q entry)).trans ((if_neg (known l q entry)).trans there),uart⟩
  · change put m.openft i _ l = some q at one
    change put m.openft i _ l' = some q at two
    by_cases here : l = i <;> by_cases here' : l' = i
    · exact here.trans here'.symm
    · rw [here,put_self] at one
      rw [put_other _ _ here'] at two
      exact absurd (Option.some.inj one).symm (known l' q two)
    · rw [put_other _ _ here] at one
      rw [here',put_self] at two
      exact absurd (Option.some.inj two).symm (known l q one)
    · rw [put_other _ _ here] at one
      rw [put_other _ _ here'] at two
      exact uarts.apart l l' q one two

-- The descriptors that a process begins with.
def firstFdt : Fin fdtSize → Int := put (put (put (fun _ => -1) 0 0) 1 1) 2 2

theorem firstFdt_leads {openft : Fin openSize → Option UInt32} (zero : (openft 0).isSome) (one : (openft 1).isSome)
    (two : (openft 2).isSome) (fd : Fin fdtSize) :
    firstFdt fd = -1 ∨ ∃ k : Fin openSize,firstFdt fd = k.val ∧ (openft k).isSome := by
  have cases : ∀ fd,firstFdt fd = -1 ∨ firstFdt fd = 0 ∨ firstFdt fd = 1 ∨ firstFdt fd = 2 := by decide
  rcases cases fd with none | here | here | here
  · exact .inl none
  · exact .inr ⟨0,here,zero⟩
  · exact .inr ⟨1,here,one⟩
  · exact .inr ⟨2,here,two⟩

theorem newUserProc_fdt {entry : UInt32} {priority : Int} {i : Fin pcbSize}
    (run : (newUserProc entry priority).Ends m (some i) m') : (m'.pcb i).fdt = firstFdt ∧ (m'.pcb i).pid = i ∧
      m'.openft = m.openft ∧ m'.heap.fdtes = m.heap.fdtes ∧ m'.pipes = m.pipes := by
  obtain ⟨r,t,entered,run⟩ := ends_bind.mp run
  cases r with
  | none => cases (ends_pure.mp run).1
  | some j =>
      obtain ⟨stack,u,asked,run⟩ := ends_bind.mp run
      obtain ⟨_,v,filled,run⟩ := ends_bind.mp run
      obtain ⟨same,rfl⟩ := ends_pure.mp run
      cases same
      have side : u.fileSide = m.fileSide := ((@mallocStack_apart _ id).same asked).trans ((@newPcbEntry_apart _ id).same entered)
      cases ends_update.mp filled
      have self := @put_self pcbSize Pcb u.pcb i
      refine ⟨?_,?_,congrArg FileSide.openft side,congrArg FileSide.fdtes side,congrArg FileSide.pipes side⟩
      · exact (congrArg Pcb.fdt (self _)).trans rfl
      · exact congrArg Pcb.pid (self _)

-- After the reset only the first process is there, and it has the UART three times.
theorem boot_uarts {zero : Machine} {entry : UInt32} (z : zero.Zero) (run : (boot entry).Ends zero () m) : m.descs.Uarts ∧
    ∀ i fd,m.descs.live i = true → m.descs.fdt i fd = -1 ∨ ∃ k : Fin openSize,m.descs.fdt i fd = k.val ∧ (m.descs.openft k).isSome := by
  have booted := boot_booted z run
  unfold boot startInit at run
  simp only [ends_bind] at run
  obtain ⟨_,t1,loaded,_,t2,uart1,_,t3,uart2,_,t4,uart3,r,t5,entered,switch⟩ := run
  have side1 : t1.fileSide.openft = zero.openft := (@initFs_keeps _ Machine.openft fun _ _ => rfl).same loaded
  have none : ∀ k,t1.openft k = none := fun k => (congrFun side1 k).trans (z.openft k)
  have empty : t1.descs.Uarts := by
    refine ⟨fun k p entry => ?_,fun k l p entry => ?_⟩ <;> cases (none k).symm.trans entry
  obtain ⟨first,p1,table1⟩ := openUart_uarts empty uart1
  obtain ⟨second,p2,table2⟩ := openUart_uarts first uart2
  obtain ⟨third,p3,table3⟩ := openUart_uarts second uart3
  cases r with
  | none => exact absurd switch ends_stop
  | some i =>
      obtain ⟨fdt,pid,openft,fdtes,_⟩ := newUserProc_fdt entered
      have side : m.fileSide = t5.fileSide := (@contextSwitch_apart _ id ..).same switch
      have current : m.current = (t5.pcb i).pid := by
        obtain ⟨_,rfl⟩ := ends_of_ok rfl switch
        rfl
      have index : i = 0 := pid.symm.trans (current.symm.trans booted.current)
      have table : m.openft = t4.openft := (congrArg FileSide.openft side).trans openft
      have objects : m.heap.fdtes = t4.heap.fdtes := (congrArg FileSide.fdtes side).trans fdtes
      refine ⟨⟨fun k p entry => ?_,fun k l p one two => ?_⟩,fun j fd lives => ?_⟩
      · obtain ⟨e,there,uart⟩ := third.object k p ((congrFun table k).symm.trans entry)
        exact ⟨e,(congrFun objects p).trans there,uart⟩
      · exact third.apart k l p ((congrFun table k).symm.trans one) ((congrFun table l).symm.trans two)
      · rw [booted.only lives]
        have mine : m.descs.fdt 0 = firstFdt := by
          rw [← index,← fdt]
          exact congrFun (congrArg FileSide.fdt side) i
        have full : (m.openft 0).isSome ∧ (m.openft 1).isSome ∧ (m.openft 2).isSome := by
          rw [table,table3,table2,table1]
          refine ⟨?_,?_,?_⟩
          · rw [put_other _ _ (by decide),put_other _ _ (by decide),put_self]
            rfl
          · rw [put_other _ _ (by decide),put_self]
            rfl
          · rw [put_self]
            rfl
        rw [mine]
        exact firstFdt_leads full.1 full.2.1 full.2.2 fd

theorem boot_counted {zero : Machine} {entry : UInt32} (z : zero.Zero) (run : (boot entry).Ends zero () m) : m.descs.Counted := by
  obtain ⟨uarts,leads⟩ := boot_uarts z run
  exact uarts.counted leads

theorem Reached.accounts (reached : Reached KeepsCounts m) : m.descs.Counted ∧ m.procs.Runner := by
  induction reached with
  | boot z run => exact ⟨boot_counted z run,Procs.Booted.runner (boot_booted z run)⟩
  | @call m m' e ctx ram _ keepsCounts run ih =>
      have entered : (m.enter ctx ram).procs.Runner := ⟨ih.2.live,ih.2.runs,ih.2.alone,ih.2.own⟩
      have counted : (m.enter ctx ram).descs.Counted := ih.1
      exact ⟨handle_counted counted entered keepsCounts run,(handle_did run).runner entered keepsCounts.steady⟩

-- In every run, the objects of files and pipes count the descriptors that lead to them.
theorem references_counted (reached : Reached KeepsCounts m) : m.descs.Counted := reached.accounts.1

end Boot

-- The first process makes a pipe, and forks.
def Machine.piped : Machine := (Machine.started (few 8)).call 0x0E 0x1000 0

theorem keepsCounts_other (m : Machine) (id : UInt32) (other : id.toNat ∉ [0x03,0x04,0x06,0x0A,0x0B,0x0C]) :
    KeepsCounts m (.svc id) := by
  simp only [List.mem_cons,List.not_mem_nil,or_false,not_or] at other
  exact ⟨⟨fun call => absurd call other.1,fun call => absurd call other.2.1,fun call => absurd call other.2.2.1,
    fun call => absurd call other.2.2.2.1⟩,fun call => absurd call other.2.1,fun call => absurd call other.2.2.1,
    fun call => absurd call other.2.2.2.2.1,fun call => absurd call other.2.2.2.2.2⟩

theorem references_counted_piped : (Machine.piped.call 3 0 0).descs.Counted := by
  have started : Reached KeepsCounts (Machine.started (few 8)) := started_reached (by decide) (by decide +kernel)
  have piped : Reached KeepsCounts Machine.piped := started.calls (keepsCounts_other _ _ (by decide)) (by decide +kernel)
  refine references_counted (piped.calls ⟨⟨fun _ _ => by decide +kernel,?_,?_,?_⟩,?_,?_,?_,?_⟩ (by decide +kernel))
  all_goals exact fun wrong => absurd wrong (by decide)
end ArchiveOs.Kernel
