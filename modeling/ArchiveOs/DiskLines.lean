import ArchiveOs.DiskWire

-- The lines of the disk: what one side has written the other one reads.
namespace ArchiveOs.Serial
open Duplex Talk

section Digits

theorem unhexDigit_itox : ∀ k : Fin 16,unhexDigit (itox k.val) = some k.val := by decide
theorem xtoi_hexDigit : ∀ k : Fin 16,xtoi (hexDigit k.val) = k.val := by decide
theorem itox_plain : ∀ k : Fin 16,itox k.val ≠ newline ∧ isSpace (itox k.val) = false := by decide

theorem high_half (x : UInt8) : ((x >>> 4) &&& 0xF).toNat = x.toNat / 16 := by
  have bound := x.toNat_lt
  have mask := Nat.and_two_pow_sub_one_eq_mod (x.toNat / 16) 4
  simp only [UInt8.toNat_and,UInt8.toNat_shiftRight,UInt8.toNat_ofNat,Nat.shiftRight_eq_div_pow]
  norm_num at mask ⊢
  omega

theorem low_half (x : UInt8) : (x &&& 0xF).toNat = x.toNat % 16 := by
  have mask := Nat.and_two_pow_sub_one_eq_mod x.toNat 4
  simp only [UInt8.toNat_and,UInt8.toNat_ofNat]
  norm_num at mask ⊢
  exact mask

theorem halves (x : UInt8) : UInt8.ofNat (16 * (x.toNat / 16) + x.toNat % 16) = x := by
  rw [Nat.div_add_mod,UInt8.ofNat_toNat]

theorem half_lt (x : UInt8) : x.toNat / 16 < 16 := by
  have bound := x.toNat_lt
  omega

-- What the driver writes for some bytes.
def digits (xs : List UInt8) : List UInt8 :=
  xs.flatMap fun x => [itox (x.toNat / 16 : Nat),itox (x.toNat % 16 : Nat)]

def word (a : UInt32) : List UInt8 :=
  [(a &&& 0xFF).toUInt8,((a >>> 8) &&& 0xFF).toUInt8,((a >>> 16) &&& 0xFF).toUInt8,((a >>> 24) &&& 0xFF).toUInt8]

theorem digits_cons (x : UInt8) (xs : List UInt8) :
    digits (x :: xs) = itox (x.toNat / 16 : Nat) :: itox (x.toNat % 16 : Nat) :: digits xs := rfl

theorem digits_plain {xs : List UInt8} {c : UInt8} (member : c ∈ digits xs) : c ≠ newline ∧ isSpace c = false := by
  unfold digits at member
  obtain ⟨x,_,here⟩ := List.mem_flatMap.mp member
  rcases List.mem_cons.mp here with rfl | here
  · exact itox_plain ⟨_,half_lt x⟩
  · rw [List.mem_singleton.mp here]
    exact itox_plain ⟨_,Nat.mod_lt _ (by decide)⟩

theorem unhexlify_digits (xs : List UInt8) : unhexlify (digits xs) = some xs := by
  induction xs with
  | nil => rfl
  | cons x xs ih =>
      have hi := unhexDigit_itox ⟨_,half_lt x⟩
      have lo := unhexDigit_itox ⟨x.toNat % 16,Nat.mod_lt _ (by decide)⟩
      rw [digits_cons]
      unfold unhexlify
      simp only [Option.bind_eq_bind] at hi lo ⊢
      rw [hi,Option.bind_some,lo,Option.bind_some,ih,Option.bind_some,halves]
      rfl

theorem unpack_word (a : UInt32) : unpack (word a) = some (Fs2.toInt a) := by
  have value : UInt32.ofNat ((a &&& 0xFF).toUInt8.toNat + 256 * ((a >>> 8) &&& 0xFF).toUInt8.toNat +
      65536 * ((a >>> 16) &&& 0xFF).toUInt8.toNat + 16777216 * ((a >>> 24) &&& 0xFF).toUInt8.toNat) = a := by
    apply UInt32.toNat_inj.mp
    have bound := a.toNat_lt
    have mask : ∀ n,n &&& 255 = n % 256 := fun n => Nat.and_two_pow_sub_one_eq_mod n 8
    simp [Nat.shiftRight_eq_div_pow,mask]
    omega
  unfold unpack word
  dsimp only
  rw [value]

end Digits

section Driver

theorem puth_sends (x : UInt8) : puth x = sends (digits [x]) := by
  unfold puth
  rw [high_half,low_half]
  rfl

theorem dataPuth_sends (xs : List UInt8) : dataPuth xs = sends (digits xs) := by
  induction xs with
  | nil => rfl
  | cons x xs ih =>
      have parts : digits (x :: xs) = digits [x] ++ digits xs := rfl
      unfold dataPuth
      rw [parts,sends_append,puth_sends,ih]

theorem addrPuth_sends (a : UInt32) : addrPuth a = sends (digits (word a)) := by
  rw [← dataPuth_sends]
  rfl

-- A request is a line of fields.
def request (fields : List (List UInt8)) : List UInt8 := [space].intercalate fields ++ [newline]

theorem askConf_sends : askConf = sends (request [digits [0x00]]) >>= fun _ => reply (some 8) := by
  unfold askConf
  rw [puth_sends]
  rfl

theorem askRd_sends (a : UInt32) (n : Nat) :
    askRd a n = sends (request [digits [0x02],digits (word a)]) >>= fun _ => reply (some n) := by
  have line : request [digits [0x02],digits (word a)] = digits [0x02] ++ ([space] ++ (digits (word a) ++ [newline])) := by
    simp [request,List.intercalate]
  unfold askRd putc
  rw [puth_sends,addrPuth_sends,line,sends_append,sends_append,sends_append]
  simp only [sends_one,bind_assoc]

theorem askWr_sends (a : UInt32) (x : List UInt8) :
    askWr a x = sends (request [digits [0x01],digits (word a),digits x]) >>= fun _ => reply none := by
  have line : request [digits [0x01],digits (word a),digits x] =
      digits [0x01] ++ ([space] ++ (digits (word a) ++ ([space] ++ (digits x ++ [newline])))) := by
    simp [request,List.intercalate]
  unfold askWr putc
  rw [puth_sends,addrPuth_sends,dataPuth_sends,line,sends_append,sends_append,sends_append,sends_append,sends_append]
  simp only [sends_one,bind_assoc]

end Driver

section Program

-- Up to the end of its line a request is only collected.
def Server.keep (s : Server) (c : UInt8) : Server := if s.alive = false then s else {s with line := s.line ++ [c]}

theorem react_keeps (s : Server) (c : UInt8) (inside : c ≠ newline) : s.react c = (s.keep c,[]) := by
  unfold Server.react Server.keep
  by_cases dead : s.alive = false
  · rw [if_pos dead,if_pos dead]
  · rw [if_neg dead,if_neg dead,if_pos inside]

theorem keeps (cs : List UInt8) (s : Server) (alive : s.alive = true) : cs.foldl Server.keep s = {s with line := s.line ++ cs} := by
  induction cs generalizing s with
  | nil => simp
  | cons c cs ih =>
      have here : s.keep c = {s with line := s.line ++ [c]} := if_neg (by simp [alive])
      have rest := ih {s with line := s.line ++ [c]} alive
      rw [List.foldl_cons,here,rest]
      simp

-- Between requests.
structure Idle (s : Server) : Prop where
  alive : s.alive = true
  line : s.line = []

theorem converse_line {α : Type} {s s' : Server} {ack : Ack} (idle : Idle s) {cs : List UInt8} (inside : ∀ c ∈ cs,c ≠ newline)
    (served : serve s (cs ++ [newline]) = some (s',ack)) (t : Talk UInt8 α) :
    converse Server.react (sends (cs ++ [newline]) >>= fun _ => t) s [] =
      converse Server.react t s' (ack.text ++ [newline]) := by
  have empty : ({s with line := []} : Server) = s := by
    cases s
    simp only [Server.mk.injEq] at idle ⊢
    have line := idle.line
    dsimp only at line
    simp [line]
  have collected := converse_sends Server.keep react_keeps cs inside s []
  rw [keeps cs s idle.alive,idle.line,List.nil_append] at collected
  rw [sends_append,bind_assoc,converse_then collected]
  have last : ({s with line := cs} : Server).react newline = (s',ack.text ++ [newline]) := by
    unfold Server.react
    rw [if_neg (by simp [idle.alive]),if_neg (by simp)]
    simp only [empty,served]
  show converse Server.react t (({s with line := cs} : Server).react newline).1
    ([] ++ (({s with line := cs} : Server).react newline).2) = _
  rw [last,List.nil_append]

theorem fields_split {fields : List (List UInt8)} {first last : List UInt8} {a z : UInt8} (clean : ∀ f ∈ fields,∀ c ∈ f,isSpace c = false)
    (start : [space].intercalate fields = a :: first) (ends : [space].intercalate fields = last ++ [z])
    (visible : isSpace a = false ∧ isSpace z = false) : (strip (request fields)).splitOn space = fields := by
  have stripped : strip (request fields) = [space].intercalate fields := by
    unfold strip request
    have dropped : ([space].intercalate fields ++ [newline]).dropWhile isSpace = [space].intercalate fields ++ [newline] := by
      rw [start,List.cons_append,List.dropWhile_cons_of_neg (by simp [visible.1])]
    rw [dropped,List.rdropWhile_concat_pos _ _ _ (by decide),ends,List.rdropWhile_concat_neg _ _ _ (by simp [visible.2])]
  have some_ : fields ≠ [] := by
    rintro rfl
    cases start
  rw [stripped]
  refine List.splitOn_intercalate space (fun f member here => ?_) some_
  have wrong := clean f member space here
  exact absurd wrong (by decide)

theorem digits_ends (x : UInt8) (xs : List UInt8) : ∃ a first z last,digits (x :: xs) = a :: first ∧ digits (x :: xs) = last ++ [z] ∧
    isSpace a = false ∧ isSpace z = false := by
  obtain ⟨last,z,split⟩ : ∃ last z,digits (x :: xs) = last ++ [z] :=
    ⟨_,_,(List.dropLast_append_getLast (List.cons_ne_nil _ _)).symm⟩
  have member : z ∈ digits (x :: xs) := by rw [split]; simp
  exact ⟨_,_,z,last,digits_cons x xs,split,(itox_plain ⟨_,half_lt x⟩).2,(digits_plain member).2⟩

theorem intercalate_last {α : Type} (sep f : List α) (fs : List (List α)) : ∃ pre,sep.intercalate (fs ++ [f]) = pre ++ f := by
  induction fs with
  | nil => exact ⟨[],by simp⟩
  | cons g gs ih =>
      obtain ⟨pre,same⟩ := ih
      refine ⟨g ++ (sep ++ pre),?_⟩
      rw [List.cons_append,List.intercalate_cons_of_ne_nil (by simp),same]
      simp

-- A request of the driver, whose fields are the digits of a command, an address and data.
theorem driver_split (command : UInt8) (fields : List (List UInt8)) (some_ : ∀ xs ∈ fields,xs ≠ []) :
    (strip (request (([command] :: fields).map digits))).splitOn space = ([command] :: fields).map digits := by
  obtain ⟨a,first,_,_,start,_,visible,_⟩ := digits_ends command []
  have begins : ∃ more,[space].intercalate (([command] :: fields).map digits) = a :: more := by
    rw [List.map_cons,start]
    cases fields with
    | nil => exact ⟨first,by simp⟩
    | cons f fs => exact ⟨_,by rw [List.map_cons,List.intercalate_cons_cons,List.cons_append,List.cons_append]⟩
  have ends : ∃ last z,[space].intercalate (([command] :: fields).map digits) = last ++ [z] ∧ isSpace z = false := by
    obtain ⟨front,f,shape⟩ : ∃ front f,[command] :: fields = front ++ [f] :=
      ⟨_,_,(List.dropLast_append_getLast (List.cons_ne_nil _ _)).symm⟩
    have member : f ∈ [command] :: fields := by rw [shape]; simp
    have filled : f ≠ [] := by
      rcases List.mem_cons.mp member with rfl | later
      · exact List.cons_ne_nil _ _
      · exact some_ f later
    obtain ⟨pre,whole⟩ := intercalate_last [space] (digits f) (front.map digits)
    cases f with
    | nil => exact absurd rfl filled
    | cons x xs =>
        obtain ⟨_,_,z,last,_,split,_,visible⟩ := digits_ends x xs
        refine ⟨pre ++ last,z,?_,visible⟩
        rw [shape,List.map_append,List.map_singleton,whole,split,List.append_assoc]
  obtain ⟨more,begins⟩ := begins
  obtain ⟨last,z,ends,visible'⟩ := ends
  refine fields_split (fun f member c here => ?_) begins ends ⟨visible,visible'⟩
  obtain ⟨xs,_,rfl⟩ := List.mem_map.mp member
  exact (digits_plain here).2

theorem serve_conf (s : Server) : serve s (request [digits [0x00]]) = conf s := by
  have split := driver_split 0x00 [] (by simp)
  unfold serve
  dsimp only
  rw [show [digits [0x00]] = [([0x00] : List UInt8)].map digits from rfl,split]
  exact if_pos rfl

theorem serve_wr (s : Server) (a : UInt32) {x : List UInt8} (filled : x ≠ []) :
    serve s (request [digits [0x01],digits (word a),digits x]) = wr s [digits [0x01],digits (word a),digits x] := by
  have split := driver_split 0x01 [word a,x] (by simp [word,filled])
  unfold serve
  dsimp only
  rw [show [digits [0x01],digits (word a),digits x] = [[0x01],word a,x].map digits from rfl,split]
  have head : ([[0x01],word a,x].map digits)[0]? = some [0x30,0x31] := rfl
  rw [head,if_neg (by decide),if_pos rfl]

theorem serve_rd (s : Server) (a : UInt32) :
    serve s (request [digits [0x02],digits (word a)]) = rd s [digits [0x02],digits (word a)] := by
  have split := driver_split 0x02 [word a] (by simp [word])
  unfold serve
  dsimp only
  rw [show [digits [0x02],digits (word a)] = [[0x02],word a].map digits from rfl,split]
  have head : ([[0x02],word a].map digits)[0]? = some [0x30,0x32] := rfl
  rw [head,if_neg (by decide),if_neg (by decide),if_pos rfl]

theorem wr_fields (s : Server) (a : UInt32) (x command : List UInt8) : wr s [command,digits (word a),digits x] =
    if (s.blockNum : Int) ≤ Fs2.toInt a then some (s,[ackFail])
    else if x.length ≠ s.blockLen then some (s,[ackFail])
    else if Fs2.toInt a * s.blockLen < 0 then none
    else
      let n := x.length - s.wrCut s.writes
      let s := {s with file := overwrite s.file ((Fs2.toInt a).toNat * s.blockLen) (x.take n),writes := s.writes + 1}
      if x.length ≠ n then some (s,[ackFail]) else some (s,[ackOkay]) := by
  have address : ([command,digits (word a),digits x])[1]? = some (digits (word a)) := rfl
  have data : ([command,digits (word a),digits x])[2]? = some (digits x) := rfl
  unfold wr
  simp only [address,data,Option.bind_eq_bind,Option.bind_some,unhexlify_digits,unpack_word]

theorem rd_fields (s : Server) (a : UInt32) (command : List UInt8) : rd s [command,digits (word a)] =
    if (s.blockNum : Int) ≤ Fs2.toInt a then some (s,[ackFail])
    else if Fs2.toInt a * s.blockLen < 0 then none
    else
      let data := (s.file.drop ((Fs2.toInt a).toNat * s.blockLen)).take (s.blockLen - s.rdCut s.reads)
      let s := {s with reads := s.reads + 1}
      if data.length ≠ s.blockLen then some (s,[ackFail]) else some (s,[ackOkay,data]) := by
  have address : ([command,digits (word a)])[1]? = some (digits (word a)) := rfl
  unfold rd
  simp only [address,Option.bind_eq_bind,Option.bind_some,unhexlify_digits,unpack_word]

end Program

-- The acknowledgement as the driver reads it.
section Answers
variable {s : Server}

theorem join_halves : ∀ hi lo : Fin 16,UInt8.ofInt ((hi.val : Int) * 16) ||| UInt8.ofInt (lo.val : Int) =
    UInt8.ofNat (16 * hi.val + lo.val) := by decide +kernel

theorem converse_geth {hi lo : Nat} (high : hi < 16) (low : lo < 16) {c d : UInt8} (c_eq : xtoi c = hi) (d_eq : xtoi d = lo)
    (rest : List UInt8) : converse Server.react geth s (c :: d :: rest) = some (UInt8.ofNat (16 * hi + lo),s,rest) := by
  show some (UInt8.ofInt (xtoi c * 16) ||| UInt8.ofInt (xtoi d),s,rest) = _
  rw [c_eq,d_eq]
  exact congrArg (fun x => some (x,s,rest)) (join_halves ⟨hi,high⟩ ⟨lo,low⟩)

theorem converse_dataGeth (data rest : List UInt8) :
    converse Server.react (dataGeth data.length) s (hexlify data ++ rest) = some (data,s,rest) := by
  induction data with
  | nil => rfl
  | cons x xs ih =>
      have shape : hexlify (x :: xs) ++ rest = hexDigit (x.toNat / 16) :: hexDigit (x.toNat % 16) :: (hexlify xs ++ rest) := rfl
      have low := Nat.mod_lt x.toNat (show 16 > 0 by decide)
      have first := converse_geth (s := s) (half_lt x) low (xtoi_hexDigit ⟨_,half_lt x⟩) (xtoi_hexDigit ⟨_,low⟩) (hexlify xs ++ rest)
      rw [halves] at first
      rw [shape]
      show converse Server.react (geth >>= _) s _ = _
      rw [converse_then first,converse_then ih]
      rfl

theorem converse_okay (data : List UInt8) : converse Server.react (reply (some data.length)) s (Ack.text [ackOkay,data] ++ [newline]) =
    some (some data,s,[]) := by
  have shape : Ack.text [ackOkay,data] ++ [newline] = 0x30 :: 0x30 :: (space :: (hexlify data ++ [newline])) := by
    simp [Ack.text,ackOkay]
  have first := converse_geth (s := s) (show 0 < 16 by decide) (show 0 < 16 by decide) (c := 0x30) (d := 0x30) rfl rfl
    (space :: (hexlify data ++ [newline]))
  rw [shape]
  show converse Server.react (geth >>= _) s _ = _
  rw [converse_then first]
  show converse Server.react (dataGeth data.length >>= _) s (hexlify data ++ [newline]) = _
  rw [converse_then (converse_dataGeth data [newline])]
  rfl

theorem converse_done : converse Server.react (reply none) s (Ack.text [ackOkay] ++ [newline]) = some (some [],s,[]) := rfl

theorem converse_fail (n : Option Nat) : converse Server.react (reply n) s (Ack.text [ackFail] ++ [newline]) = some (none,s,[]) := rfl

end Answers
end ArchiveOs.Serial
