import ArchiveOs.DiskRuns
import ArchiveOs.Formats

-- The disk that the file system is modelled on is what it gets over the line.
namespace ArchiveOs.Serial
open Duplex Fs2

-- What fs2_rblk and fs2_wblk ask for; a read is given a buffer.
inductive BlockCall where
  | rd (a : UInt32) (x : Buffer) (old : Block)
  | wr (a : UInt32) (x : Buffer) (b : Block)

def BlockCall.address : BlockCall → UInt32
  | .rd a _ _ => a
  | .wr a _ _ => a

def BlockCall.request : BlockCall → Request
  | .rd a _ old => .rd a old.toList
  | .wr a _ b => .wr a b.toList

-- The same call on the modelled disk.
def BlockCall.on (d : Disk) : BlockCall → Disk × Answer
  | .rd a x old => ((d.rd a x).1,((d.rd a x).2.map fun b => (diskSuccess,b.toList)).getD (diskFailure,old.toList))
  | .wr a x b => ((d.wr a x b).1,(if (d.wr a x b).2 then diskSuccess else diskFailure),[])

def callsOn (d : Disk) : List BlockCall → Disk × List Answer
  | [] => (d,[])
  | c :: cs => ((callsOn (c.on d).1 cs).1,(c.on d).2 :: (callsOn (c.on d).1 cs).2)

-- The program at the other end holds the blocks of the disk.
def HoldsDisk (s : Server) (d : Disk) : Prop := ∀ a : UInt32,a.toNat < s.blockNum → (d.blk a).toList = s.block a.toNat

-- Every request fails, or none does.
def failing (d : Disk) (fails : Bool) : Disk := {d with rdFails := fun _ _ => fails,wrFails := fun _ _ => fails}

section Calls
variable {s : Server} {d : Disk} {a : UInt32} {x : Buffer} {b old : Block}

theorem on_rd_fails (fails : d.rdFails d.trace.length x = true) : BlockCall.on d (.rd a x old) =
    ({d with trace := .rd a x false :: d.trace},(diskFailure,old.toList)) := by
  simp [BlockCall.on,Disk.rd,fails]

theorem on_rd_done (works : d.rdFails d.trace.length x = false) : BlockCall.on d (.rd a x old) =
    ({d with trace := .rd a x true :: d.trace},(diskSuccess,(d.blk a).toList)) := by
  simp [BlockCall.on,Disk.rd,works]

theorem on_wr_fails (fails : d.wrFails d.trace.length x = true) : BlockCall.on d (.wr a x b) =
    ({d with trace := .wr a x false :: d.trace},(diskFailure,[])) := by
  simp [BlockCall.on,Disk.wr,fails]

theorem on_wr_done (works : d.wrFails d.trace.length x = false) : BlockCall.on d (.wr a x b) =
    ({d with blk := fun c => if c = a then b else d.blk c,trace := .wr a x true :: d.trace},(diskSuccess,[])) := by
  simp [BlockCall.on,Disk.wr,works]

theorem on_kept (d : Disk) (c : BlockCall) : (c.on d).1.trace.length = d.trace.length + 1 ∧
    (c.on d).1.rdFails = d.rdFails ∧ (c.on d).1.wrFails = d.wrFails := by
  cases c with
  | rd a x old =>
      cases works : d.rdFails d.trace.length x
      · rw [on_rd_done works]
        exact ⟨rfl,rfl,rfl⟩
      · rw [on_rd_fails works]
        exact ⟨rfl,rfl,rfl⟩
  | wr a x b =>
      cases works : d.wrFails d.trace.length x
      · rw [on_wr_done works]
        exact ⟨rfl,rfl,rfl⟩
      · rw [on_wr_fails works]
        exact ⟨rfl,rfl,rfl⟩

theorem on_congr (c : BlockCall) {d e : Disk} (blk : d.blk = e.blk) (trace : d.trace = e.trace)
    (now : ∀ x,d.rdFails d.trace.length x = e.rdFails d.trace.length x ∧ d.wrFails d.trace.length x = e.wrFails d.trace.length x) :
    (c.on d).1.blk = (c.on e).1.blk ∧ (c.on d).1.trace = (c.on e).1.trace ∧ (c.on d).2 = (c.on e).2 := by
  cases c with
  | rd a x old =>
      have same := (now x).1
      cases works : d.rdFails d.trace.length x
      · rw [on_rd_done works,on_rd_done (d := e) (by rw [← trace,← same,works]),blk,trace]
        exact ⟨rfl,rfl,rfl⟩
      · rw [on_rd_fails works,on_rd_fails (d := e) (by rw [← trace,← same,works]),blk,trace]
        exact ⟨rfl,rfl,rfl⟩
  | wr a x b =>
      have same := (now x).2
      cases works : d.wrFails d.trace.length x
      · rw [on_wr_done works,on_wr_done (d := e) (by rw [← trace,← same,works]),blk,trace]
        exact ⟨rfl,rfl,rfl⟩
      · rw [on_wr_fails works,on_wr_fails (d := e) (by rw [← trace,← same,works]),blk,trace]
        exact ⟨rfl,rfl,rfl⟩

theorem callsOn_congr (cs : List BlockCall) {d e : Disk} (blk : d.blk = e.blk) (trace : d.trace = e.trace)
    (later : ∀ n,d.trace.length ≤ n → ∀ x,d.rdFails n x = e.rdFails n x ∧ d.wrFails n x = e.wrFails n x) :
    (callsOn d cs).2 = (callsOn e cs).2 ∧ (callsOn d cs).1.blk = (callsOn e cs).1.blk := by
  induction cs generalizing d e with
  | nil => exact ⟨rfl,blk⟩
  | cons c cs ih =>
      obtain ⟨length,rdFails,wrFails⟩ := on_kept d c
      obtain ⟨_,rdFails',wrFails'⟩ := on_kept e c
      obtain ⟨blk',trace',answer⟩ := on_congr c blk trace (later _ (Nat.le_refl _))
      have rest := ih blk' trace' fun n le x => by
        rw [rdFails,wrFails,rdFails',wrFails']
        exact later n (by omega) x
      unfold callsOn
      exact ⟨by rw [answer,rest.1],rest.2⟩

theorem length_toList (b : Block) : b.toList.length = blockSz := by simp

theorem diskWr_ends (whole : Whole s) {x : List UInt8} (filled : x ≠ []) (small : a.toNat < 2147483648) :
    ∃ r s',converse Server.react (diskWr a x) s [] = some (if r.isSome then diskSuccess else diskFailure,s',[]) ∧
      WrEnds s a.toNat x diskRetry r s' := by
  obtain ⟨r,s',met,ended⟩ := retry_wr filled small diskRetry whole
  refine ⟨r,s',?_,ended⟩
  unfold diskWr
  rw [converse_then met]
  cases r with
  | none => rfl
  | some data => rfl

-- One call: the other end does what the modelled disk does with the request failing or
-- not.
theorem call_carried (whole : Whole s) (len : s.blockLen = blockSz) (even : ∀ n,s.wrCut n = 0) (carries : HoldsDisk s d)
    (c : BlockCall) (small : c.address.toNat < 2147483648) :
    ∃ s' fails,converse Server.react c.request.talk s [] = some ((c.on (failing d fails)).2,s',[]) ∧ Kept s s' ∧
      HoldsDisk s' (c.on (failing d fails)).1 ∧ (s.NeverShort → c.address.toNat < s.blockNum → fails = false) := by
  cases c with
  | rd a x old =>
      have room : old.toList.length = s.blockLen := by rw [length_toList,len]
      obtain ⟨answer,s',met,kept,does⟩ := diskRd_converse whole (a := a) (x := old.toList) ⟨small,room⟩
      generalize same : s'.store = st' at does
      have carried : st' = s.store → HoldsDisk s' d := by
        intro eq c inside
        rw [eq] at same
        have block : s'.block = s.block := congrArg Store.block same
        rw [kept.num] at inside
        rw [block]
        exact carries c inside
      cases does with
      | read inside =>
          have done : BlockCall.on (failing d false) (.rd a x old) = _ := on_rd_done rfl
          refine ⟨s',false,?_,kept,?_,fun _ _ => rfl⟩
          · rw [done]
            exact met.trans (by rw [show (failing d false).blk = d.blk from rfl,carries a inside]; rfl)
          · rw [done]
            exact carried rfl
      | missing far =>
          have failed : BlockCall.on (failing d true) (.rd a x old) = _ := on_rd_fails rfl
          refine ⟨s',true,by rw [failed]; exact met,kept,by rw [failed]; exact carried rfl,fun _ inside => ?_⟩
          exact absurd far (Nat.not_le_of_lt inside)
      | unread loses inside =>
          have failed : BlockCall.on (failing d true) (.rd a x old) = _ := on_rd_fails rfl
          refine ⟨s',true,by rw [failed]; exact met,kept,by rw [failed]; exact carried rfl,fun steady _ => ?_⟩
          exact absurd steady loses
  | wr a x b =>
      have filled : b.toList ≠ [] := by
        intro empty
        have length := length_toList b
        rw [empty] at length
        exact absurd length (by decide)
      obtain ⟨r,s',met,ended⟩ := diskWr_ends whole (a := a) filled small
      have spoken : converse Server.react (BlockCall.request (.wr a x b)).talk s [] =
          some ((if r.isSome then diskSuccess else diskFailure,[]),s',[]) := converse_then met
      cases ended with
      | refused bad =>
          have far := bad.resolve_right fun uneven => uneven ((length_toList b).trans len.symm)
          have failed : BlockCall.on (failing d true) (.wr a x b) = _ := on_wr_fails rfl
          refine ⟨s,true,by rw [failed]; exact spoken,.refl whole,by rw [failed]; exact carries,fun _ inside => ?_⟩
          exact absurd far (Nat.not_le_of_lt inside)
      | done kept inside full blocks _ =>
          have done : BlockCall.on (failing d false) (.wr a x b) = _ := on_wr_done rfl
          refine ⟨s',false,by rw [done]; exact spoken,kept,?_,fun _ _ => rfl⟩
          rw [done]
          intro c within
          rw [kept.num] at within
          rw [blocks c.toNat]
          by_cases same : c = a
          · rw [if_pos (congrArg UInt32.toNat same)]
            exact congrArg Vector.toList (if_pos same)
          · rw [if_neg fun eq => same (UInt32.toNat_inj.mp eq)]
            exact (congrArg Vector.toList (if_neg same)).trans (carries c within)
      | torn k kept inside full blocks cut =>
          have first := cut 0 (by decide)
          rw [even] at first
          exact absurd first (Nat.lt_irrefl 0)

theorem callsOn_cons (fails : Bool) (c : BlockCall) (cs : List BlockCall) (rdFails wrFails : Nat → Buffer → Bool) :
    ∃ rdFails' wrFails',(∀ t x,t = d.trace.length → rdFails' t x = fails ∧ wrFails' t x = fails) ∧
      (∀ t x,t ≠ d.trace.length → rdFails' t x = rdFails t x ∧ wrFails' t x = wrFails t x) ∧
      (callsOn {d with rdFails := rdFails',wrFails := wrFails'} (c :: cs)).2 = (c.on (failing d fails)).2 ::
        (callsOn {(c.on (failing d fails)).1 with rdFails := rdFails,wrFails := wrFails} cs).2 ∧
      (callsOn {d with rdFails := rdFails',wrFails := wrFails'} (c :: cs)).1.blk =
        (callsOn {(c.on (failing d fails)).1 with rdFails := rdFails,wrFails := wrFails} cs).1.blk := by
  refine ⟨fun t x => if t = d.trace.length then fails else rdFails t x,
    fun t x => if t = d.trace.length then fails else wrFails t x,fun t x now => ⟨if_pos now,if_pos now⟩,
    fun t x later => ⟨if_neg later,if_neg later⟩,?_⟩
  generalize same : ({d with
    rdFails := fun t x => if t = d.trace.length then fails else rdFails t x,
    wrFails := fun t x => if t = d.trace.length then fails else wrFails t x} : Disk) = e
  have trace : e.trace = d.trace := by rw [← same]
  obtain ⟨blk,trace',answer⟩ := on_congr c (d := e) (e := failing d fails) (by rw [← same]; rfl) trace fun x => by
    rw [trace,← same]
    exact ⟨if_pos rfl,if_pos rfl⟩
  obtain ⟨length,eRd,eWr⟩ := on_kept e c
  have rest := callsOn_congr cs (d := (c.on e).1)
    (e := {(c.on (failing d fails)).1 with rdFails := rdFails,wrFails := wrFails}) blk trace' fun n le x => by
      rw [length,trace] at le
      rw [eRd,eWr,← same]
      exact ⟨if_neg (by omega),if_neg (by omega)⟩
  have first : callsOn e (c :: cs) = ((callsOn (c.on e).1 cs).1,(c.on e).2 :: (callsOn (c.on e).1 cs).2) := rfl
  rw [first]
  exact ⟨by rw [answer,rest.1],rest.2⟩

theorem calls_carried (cs : List BlockCall) {s : Server} {d : Disk} (whole : Whole s) (len : s.blockLen = blockSz)
    (even : ∀ n,s.wrCut n = 0) (carries : HoldsDisk s d) (small : ∀ c ∈ cs,c.address.toNat < 2147483648) :
    ∃ rdFails wrFails s',converse Server.react (session (cs.map BlockCall.request)) s [] =
        some ((callsOn {d with rdFails := rdFails,wrFails := wrFails} cs).2,s',[]) ∧ Kept s s' ∧
      HoldsDisk s' (callsOn {d with rdFails := rdFails,wrFails := wrFails} cs).1 ∧
      (s.NeverShort → (∀ c ∈ cs,c.address.toNat < s.blockNum) → ∀ t x,rdFails t x = false ∧ wrFails t x = false) := by
  induction cs generalizing s d with
  | nil => exact ⟨fun _ _ => false,fun _ _ => false,s,rfl,.refl whole,carries,fun _ _ _ _ => ⟨rfl,rfl⟩⟩
  | cons c cs ih =>
      obtain ⟨t,fails,met,kept,carries',works⟩ := call_carried whole len even carries c (small c (.head _))
      obtain ⟨rdFails,wrFails,u,met',kept',carries'',works'⟩ := ih kept.whole (kept.len.trans len)
        (fun n => by rw [kept.wrCut]; exact even n) carries' fun b member => small b (.tail _ member)
      obtain ⟨rdFails',wrFails',now,later,answers,blk⟩ := callsOn_cons (d := d) fails c cs rdFails wrFails
      refine ⟨rdFails',wrFails',u,?_,kept.trans kept',?_,fun steady inside n x => ?_⟩
      · rw [List.map_cons]
        unfold session
        rw [converse_then met,converse_then met',answers]
        rfl
      · intro a within
        rw [blk]
        exact carries'' a within
      · have steady' : t.NeverShort := by
          unfold Server.NeverShort
          rw [kept.wrCut,kept.rdCut]
          exact steady
        by_cases here : n = d.trace.length
        · rw [← works steady (inside c (.head _))]
          exact now n x here
        · obtain ⟨rd,wr⟩ := later n x here
          rw [rd,wr]
          exact works' steady' (fun b member => by rw [kept.num]; exact inside b (.tail _ member)) n x

-- Whatever the file system asks of the disk it is modelled on, the line gives, and both
-- hold the same blocks afterwards. A failure stands for a block that is not there, or for
-- three attempts that went wrong.
theorem volume_served (whole : Whole s) (len : s.blockLen = blockSz) (even : ∀ n,s.wrCut n = 0) (carries : HoldsDisk s d)
    (cs : List BlockCall) (small : ∀ c ∈ cs,c.address.toNat < 2147483648) :
    ∃ rdFails wrFails s',Whole s' ∧ HoldsDisk s' (callsOn {d with rdFails := rdFails,wrFails := wrFails} cs).1 ∧
      (s.NeverShort → (∀ c ∈ cs,c.address.toNat < s.blockNum) → ∀ t x,rdFails t x = false ∧ wrFails t x = false) ∧
      ∀ l,Steps Server.react ⟨session (cs.map BlockCall.request),[],s,[]⟩ l →
        Steps Server.react l ⟨.ret (callsOn {d with rdFails := rdFails,wrFails := wrFails} cs).2,[],s',[]⟩ := by
  obtain ⟨rdFails,wrFails,s',met,kept,carries',works⟩ := calls_carried cs whole len even carries small
  exact ⟨rdFails,wrFails,s',kept.whole,carries',works,fun l steps => converse_confluent met steps⟩

end Calls

-- One empty block at either end.
def emptyServer : Server :=
  {blockNum := 1,blockLen := blockSz,file := List.replicate blockSz 0,line := [],alive := true,writes := 0,reads := 0
   wrCut := fun _ => 0,rdCut := fun _ => 0}

def emptyDisk : Disk := ⟨fun _ => Vector.replicate blockSz 0,fun _ _ => false,fun _ _ => false,[]⟩

theorem emptyServer_whole : Whole emptyServer := by
  refine ⟨⟨rfl,rfl⟩,by decide,by decide,?_⟩
  show (List.replicate blockSz (0 : UInt8)).length = 1 * blockSz
  rw [List.length_replicate,Nat.one_mul]

theorem emptyServer_carries : HoldsDisk emptyServer emptyDisk := by
  intro a inside
  have zero : a.toNat = 0 := Nat.lt_one_iff.mp inside
  have block : emptyServer.block 0 = List.replicate blockSz 0 := by
    show ((List.replicate blockSz (0 : UInt8)).drop (0 * blockSz)).take blockSz = _
    rw [Nat.zero_mul,List.drop_zero,List.take_of_length_le (by rw [List.length_replicate])]
  rw [zero,block]
  exact Vector.toList_replicate

theorem volume_served_empty : ∃ rdFails wrFails s',Whole s' ∧
    HoldsDisk s' (callsOn {emptyDisk with rdFails := rdFails,wrFails := wrFails} [.rd 0 .icache (Vector.replicate blockSz 1)]).1 ∧
      (emptyServer.NeverShort → (∀ c ∈ [BlockCall.rd 0 .icache (Vector.replicate blockSz 1)],c.address.toNat < 1) →
        ∀ t x,rdFails t x = false ∧ wrFails t x = false) ∧
      ∀ l,Steps Server.react
          ⟨session ([BlockCall.rd 0 .icache (Vector.replicate blockSz 1)].map BlockCall.request),[],emptyServer,[]⟩ l →
        Steps Server.react l ⟨.ret (callsOn {emptyDisk with rdFails := rdFails,wrFails := wrFails}
          [.rd 0 .icache (Vector.replicate blockSz 1)]).2,[],s',[]⟩ :=
  volume_served emptyServer_whole rfl (fun _ => rfl) emptyServer_carries _ fun c member => by
    rw [List.mem_singleton.mp member]
    decide

end ArchiveOs.Serial
