import JinyKernel.Net.Matching

namespace JinyKernel.Net

open List Option Words Memory
open Fifo (ContentQueue)
open Fifo.ContentQueue (Holding)
open Tcp (tcpUserDataHdr takeAck takeAck_state)

def Copied.Inside (copied : Copied) : Prop := ∀ k : Nat, (k : Int) < copied.count -> copied.start + k < copied.buf.recvLen

def IntRange (n : Int) : Prop := -2 ^ 31 ≤ n ∧ n < 2 ^ 31

def ReadsInside : Socket -> List Int -> Prop
  | _, [] => True
  | sock, appLen :: rest => ∃ after copied, socketRead sock appLen = some (after, copied) ∧
      (∀ c ∈ copied, c.Inside) ∧ ReadsInside after rest

def socketFor (net after : Tables) (buf : Buffer) : Option Socket :=
  if buf.protocol = ipprotoTcp then do
    let i ← findSock (connectedTest buf) net.tcpConnectedList
    (after.tcpConnectedList[i]?).join
  else if buf.protocol = ipprotoUdp then do
    let i ← findSock (destTest buf) net.udpList
    (after.udpList[i]?).join
  else none

def Harmless (bufs : Nat -> Tcp.Packet) (net : Tables) (buf : Buffer) : Prop :=
  ∃ after, defaultPktProcess bufs net buf = some after ∧
    ∀ sock, socketFor net after buf = some sock -> ∀ appLens, (∀ n ∈ appLens, IntRange n) -> ReadsInside sock appLens

def Takes (conn : TcpConnection) (buf : Buffer) : Prop := Tcp.Takes conn.toConnection (packet buf) (tcpDataLen buf)

structure Trusted (net : Tables) (buf : Buffer) : Prop where
  frag : buf.protocol = ipprotoTcp -> buf.fragOff = 0x40
  segment : buf.protocol = ipprotoTcp -> ∀ sock conn, FirstIn net.tcpConnectedList (connectedTest buf) sock ->
    sock.networkConn.tcpConn = some conn -> Takes conn buf -> htons buf.totLen ≤ memNetbufSize ∧
      (sock.inputQueue.Room -> conn.state ≠ .closed -> 10 + 14 + htons buf.totLen ≤ buf.recvLen)
  datagram : buf.protocol = ipprotoUdp -> ∀ sock, FirstIn net.udpList (destTest buf) sock -> buf.recvLen ≠ 0 ->
    sock.inputQueue.Room -> 20 + 8 < htons buf.totLen -> 10 + htons buf.totLen ≤ buf.recvLen

section

variable {buf : Buffer} {pos value : Nat}

theorem load_store_same : (buf.storeUint64 pos value).load pos 8 = value % 2 ^ 64 := by
  have cells : ∀ k < 8, (buf.storeUint64 pos value).bytes (pos + k) = (bytesOf 8 value).getD k 0 := by
    intro k within
    have inside : pos ≤ pos + k ∧ pos + k < pos + 8 := by omega
    simp only [Buffer.storeUint64, if_pos inside, Nat.add_sub_cancel_left]
  have length := length_bytesOf 8 value
  have power : (256 : Nat) ^ 8 = 2 ^ 64 := by norm_num
  rw [Buffer.load, window_eq_take 0 (Nat.le_of_eq length.symm) cells,
    take_of_length_le (Nat.le_of_eq length), ofBytes_bytesOf, power]

theorem load_store_apart {start width : Nat} (apart : start + width ≤ pos ∨ pos + 8 ≤ start) :
    (buf.storeUint64 pos value).load start width = buf.load start width := by
  rw [Buffer.load, Buffer.load, window_congr fun k within => ?_]
  have outside : ¬ (pos ≤ start + k ∧ start + k < pos + 8) := by omega
  simp [Buffer.storeUint64, if_neg outside]

end

theorem load_lt (buf : Buffer) (pos width : Nat) : buf.load pos width < 256 ^ width := by
  have bound : ∀ bytes : List UInt8, ofBytes bytes < 256 ^ bytes.length := by
    intro bytes
    induction bytes with
    | nil => simp [ofBytes]
    | cons byte rest ih =>
      have small := byte.toNat_lt
      rw [ofBytes, length_cons, Nat.pow_succ]
      omega
  have whole := bound (window buf.bytes pos width)
  rwa [length_window] at whole

theorem totLen_lt (buf : Buffer) : htons buf.totLen < 2 ^ 16 := by
  rw [htons]
  omega

theorem tcpHeaderLen_lt (buf : Buffer) : tcpHeaderLen buf < 2 ^ 6 := by
  have small := load_lt buf 56 1
  rw [tcpHeaderLen, Buffer.tcpoffset]
  omega

section

variable {conn : TcpConnection} {buf : Buffer}

def taken (conn : TcpConnection) (buf : Buffer) : TcpConnection :=
  { conn with toConnection := { takeAck conn.toConnection (packet buf) with
      recvSeqNo := Tcp.uint32 ((packet buf).seqno + (tcpDataLen buf).toNat) } }

theorem taken_state : (taken conn buf).state = conn.state := by simp [taken, takeAck_state]

theorem tcpDataLen_lt (buf : Buffer) : tcpDataLen buf < 2 ^ 16 := by
  have low := totLen_lt buf
  rw [tcpDataLen]
  omega

theorem tcpData_len (buf : Buffer) : (tcpData buf).len = (tcpDataLen buf).toNat := by
  have small := tcpDataLen_lt buf
  rw [tcpData, Buffer.len, load_store_apart (by omega), load_store_apart (by omega), load_store_same]
  exact Nat.mod_eq_of_lt (by omega)

theorem tcpData_offset (buf : Buffer) : (tcpData buf).offset = 20 + tcpHeaderLen buf := by
  have small := tcpHeaderLen_lt buf
  have start : 10 + 14 + 20 + tcpHeaderLen buf - tcpUserDataHdr = 20 + tcpHeaderLen buf := by
    rw [tcpUserDataHdr]
    omega
  rw [tcpData, Buffer.offset, load_store_same, start]
  exact Nat.mod_eq_of_lt (by omega)

theorem tcpData_consumed (buf : Buffer) : (tcpData buf).consumed = 0 := by
  rw [tcpData, Buffer.consumed, load_store_apart (by omega), load_store_same, Nat.zero_mod]

theorem tcpRead_takes (takes : Takes conn buf) : tcpRead conn buf =
    if htons buf.totLen > memNetbufSize then none else some (tcpDataLen buf, taken conn buf, tcpData buf, []) := by
  have positive : 0 < tcpDataLen buf := takes.2.2.1
  rw [tcpRead, Tcp.tcpRead_takes _ takes]
  by_cases large : htons buf.totLen > memNetbufSize
  · rw [if_pos large, if_pos]
    · rfl
    · rw [tcpDataLen, tcpUserDataHdr]
      omega
  · rw [if_neg large, if_neg]
    · simp only [bind_eq_bind, bind_some, if_pos positive]
      rfl
    · rw [tcpDataLen, tcpUserDataHdr]
      omega

theorem tcpRead_drops (drops : ¬ Takes conn buf) : ∃ ret after out, tcpRead conn buf = some (ret, after, buf, out) ∧
    ret ≤ 0 ∧ (conn.state = .closed -> after.state = .closed) := by
  obtain ⟨ret, after, out, read, nothing, -, state⟩ := Tcp.tcpRead_drops (tcpHeaderLen buf) drops
  refine ⟨ret, { conn with toConnection := after }, out, ?_, nothing, state⟩
  simp only [tcpRead, read, bind_eq_bind, bind_some, gt_iff_lt, if_neg (Int.not_lt.2 nothing)]

def asTcpData (buf : Buffer) : Tcp.TcpData :=
  ⟨window buf.bytes (tcpUserDataHdr + buf.offset) buf.len, buf.offset, buf.consumed⟩

def asSocket (sock : Socket) : Option Tcp.Socket :=
  sock.networkConn.tcpConn.map fun conn => ⟨conn.toConnection, sock.inputQueue.map asTcpData⟩

theorem asTcpData_tcpData (buf : Buffer) :
    asTcpData (tcpData buf) = ⟨(packet buf).data, 10 + 14 + 20 + tcpHeaderLen buf - tcpUserDataHdr, 0⟩ := by
  have start : tcpUserDataHdr + (20 + tcpHeaderLen buf) = 10 + 14 + 20 + tcpHeaderLen buf := by
    rw [tcpUserDataHdr]
    omega
  rw [asTcpData, tcpData_len, tcpData_offset, tcpData_consumed, start, ← start, Nat.add_sub_cancel_left, packet, start]
  congr 1
  -- the header of the frame has 44 bytes and more
  refine window_congr fun k _ => ?_
  simp only [tcpData, Buffer.storeUint64]
  rw [if_neg (by omega), if_neg (by omega), if_neg (by omega)]

theorem receive_asSocket {sock : Socket} (owner : sock.networkConn.tcpConn = some conn) (sized : 0 ≤ tcpDataLen buf) :
    (sock.receive buf).bind asSocket = (asSocket sock).bind fun sock =>
      Tcp.defaultPktProcess sock (packet buf) (tcpHeaderLen buf) := by
  have length : ((packet buf).data.length : Int) = tcpDataLen buf := by simp [packet, sized]
  simp only [Socket.receive, owner, tcpRead, asSocket, map_some, bind_some, Tcp.defaultPktProcess, length, bind_eq_bind,
    bind_assoc]
  congr 1
  funext y
  split_ifs
  · rw [ContentQueue.addToQueue_map, asTcpData_tcpData]
  · rfl

end

def wholeCopy : SockType -> Buffer -> Option Copied
  | .stream, buf => some ⟨buf, tcpUserDataHdr + (buf.offset + buf.consumed), (buf.len : Int) - buf.consumed⟩
  | .dgram, buf => if udpDataLen buf > 0 then some ⟨buf, 10 + 20 + 8, udpDataLen buf⟩ else none

def Numbers : SockType -> Buffer -> Prop
  | .stream, buf => buf.consumed ≤ buf.len ∧ buf.len + buf.offset ≤ memNetbufSize
  | .dgram, _ => True

def Within (type : SockType) (buf : Buffer) : Prop := ∀ copied ∈ wholeCopy type buf, copied.Inside

def Closed (sock : Socket) : Prop :=
  sock.networkConn.type = .stream ∧ (sock.networkConn.tcpConn.any fun conn => conn.state = .closed) = true

def Contained (sock : Socket) : Prop :=
  ∃ items, Holding sock.inputQueue items ∧ ∀ buf ∈ items, Numbers sock.networkConn.type buf ∧
    Within sock.networkConn.type buf

-- A negative length counts as a large one.
def portion (buf : Buffer) (appLen : Int) : Nat :=
  if 0 ≤ appLen ∧ appLen ≤ (buf.len : Int) - buf.consumed then appLen.toNat else buf.len - buf.consumed

def advanced (buf : Buffer) (n : Nat) : Buffer := buf.storeUint64 16 (buf.consumed + n)

variable {sock : Socket} {buf : Buffer} {items : List Buffer} {appLen : Int}

theorem portion_le (numbers : Numbers .stream buf) : buf.consumed + portion buf appLen ≤ buf.len := by
  obtain ⟨ordered, _⟩ := numbers
  rw [portion]
  split_ifs <;> omega

theorem advanced_len (n : Nat) : (advanced buf n).len = buf.len := load_store_apart (by omega)

theorem advanced_offset (n : Nat) : (advanced buf n).offset = buf.offset := load_store_apart (by omega)

theorem advanced_consumed {n : Nat} (small : buf.consumed + n < 2 ^ 64) :
    (advanced buf n).consumed = buf.consumed + n := by
  rw [advanced, Buffer.consumed, load_store_same, Nat.mod_eq_of_lt small]

theorem retLen_eq (numbers : Numbers .stream buf) (range : IntRange appLen) :
    (if wrapSub buf.len buf.consumed ≥ toUlong appLen then appLen else toInt (wrapSub buf.len buf.consumed)) =
      portion buf appLen := by
  obtain ⟨ordered, bound⟩ := numbers
  obtain ⟨low, high⟩ := range
  rw [memNetbufSize] at bound
  have left : wrapSub buf.len buf.consumed = buf.len - buf.consumed := by
    rw [wrapSub]
    omega
  have stored : toInt ((buf.len - buf.consumed : Nat) : Int) = (buf.len - buf.consumed : Nat) :=
    toInt_eq (by omega) (by omega)
  rw [left, stored, portion, toUlong]
  split_ifs <;> omega

theorem socketRead_stream (stream : sock.networkConn.type = .stream) (opened : ¬ Closed sock)
    (holding : Holding sock.inputQueue (buf :: items)) (numbers : Numbers .stream buf) (range : IntRange appLen) :
    socketRead sock appLen = some
      ({ sock with inputQueue :=
          let queue := sock.inputQueue.writeFirst (advanced buf (portion buf appLen))
          if buf.len = buf.consumed + portion buf appLen then queue.removeFromQueue else queue },
        some ⟨buf, tcpUserDataHdr + (buf.offset + buf.consumed), portion buf appLen⟩) := by
  have fits : buf.consumed + portion buf appLen ≤ buf.len := portion_le numbers
  have bound := numbers.2
  rw [memNetbufSize] at bound
  have near : ¬ (buf.offset + buf.consumed > memNetbufSize) := by
    rw [memNetbufSize]
    omega
  have sum : wrap (buf.offset + buf.consumed) = buf.offset + buf.consumed := by
    rw [wrap]
    omega
  have stored : toUlong ((buf.consumed : Int) + (portion buf appLen : Nat)) = buf.consumed + portion buf appLen := by
    rw [toUlong]
    omega
  have unclosed : ¬ (sock.networkConn.tcpConn.any fun conn => conn.state = .closed) = true :=
    fun closed => opened ⟨stream, closed⟩
  simp only [socketRead, stream, if_neg unclosed, holding.peep, head?_cons, retLen_eq numbers range, sum, if_neg near,
    stored]
  rw [← advanced, advanced_len, advanced_consumed (by omega)]

theorem socketRead_closed (closed : Closed sock) : socketRead sock appLen = some (sock, none) := by
  obtain ⟨stream, state⟩ := closed
  simp only [socketRead, stream, if_pos state]

theorem socketRead_empty (holding : Holding sock.inputQueue []) : socketRead sock appLen = some (sock, none) := by
  cases type : sock.networkConn.type with
  | stream => simp only [socketRead, type, holding.peep, head?_nil, ite_self]
  | dgram => simp only [socketRead, type, holding.peep, head?_nil]

theorem socketRead_dgram (dgram : sock.networkConn.type = .dgram) (holding : Holding sock.inputQueue (buf :: items)) :
    socketRead sock appLen = some (⟨(udpRead sock.networkConn buf appLen).1, sock.inputQueue.removeFromQueue⟩,
      (udpRead sock.networkConn buf appLen).2) := by
  simp only [socketRead, dgram, holding.peep, head?_cons]

theorem udpRead_type (conn : NetworkConnection) : (udpRead conn buf appLen).1.type = conn.type := by
  rw [udpRead]
  split_ifs <;> rfl

theorem udpRead_inside {conn : NetworkConnection} (within : Within .dgram buf) :
    ∀ copied ∈ (udpRead conn buf appLen).2, copied.Inside := by
  intro copied among
  apply within copied
  rw [udpRead] at among
  split_ifs at among with sized
  · rwa [wholeCopy, if_pos sized.1]
  · cases among

theorem advanced_numbers {n : Nat} (numbers : Numbers .stream buf) (fits : buf.consumed + n ≤ buf.len) :
    Numbers .stream (advanced buf n) := by
  have bound := numbers.2
  rw [memNetbufSize] at bound
  rw [Numbers, advanced_len, advanced_offset, advanced_consumed (by omega)]
  exact ⟨fits, numbers.2⟩

theorem portion_inside {n : Nat} (within : Within .stream buf) (fits : buf.consumed + n ≤ buf.len) :
    Copied.Inside ⟨buf, tcpUserDataHdr + (buf.offset + buf.consumed), n⟩ := by
  intro k below
  exact within _ rfl k (by dsimp only at below ⊢; omega)

theorem advanced_within {n : Nat} (numbers : Numbers .stream buf) (within : Within .stream buf)
    (fits : buf.consumed + n ≤ buf.len) : Within .stream (advanced buf n) := by
  have bound := numbers.2
  rw [memNetbufSize] at bound
  intro copied whole k below
  rw [wholeCopy, Option.mem_some_iff, advanced_len, advanced_offset, advanced_consumed (by omega)] at whole
  subst whole
  -- byte `k` of the rest is byte `n + k` of what was there before
  have cell := within _ rfl (n + k) (by dsimp only at below ⊢; omega)
  dsimp only at cell ⊢
  rw [advanced, Buffer.storeUint64]
  dsimp only
  omega

theorem socketRead_contained (contained : Contained sock) (range : IntRange appLen) :
    ∃ after copied, socketRead sock appLen = some (after, copied) ∧ (∀ c ∈ copied, c.Inside) ∧ Contained after := by
  obtain ⟨items, holding, good⟩ := contained
  cases items with
  | nil =>
    refine ⟨sock, none, socketRead_empty holding, fun c among => ?_, [], holding, good⟩
    cases among
  | cons buf items =>
    obtain ⟨numbers, within⟩ := good buf mem_cons_self
    have others := fun other among => good other (mem_cons_of_mem buf among)
    cases type : sock.networkConn.type with
    | dgram =>
      rw [type] at within
      refine ⟨_, _, socketRead_dgram type holding, udpRead_inside within, items, holding.remove, ?_⟩
      rw [udpRead_type]
      exact others
    | stream =>
      by_cases closed : Closed sock
      · refine ⟨sock, none, socketRead_closed closed, fun c among => ?_, buf :: items, holding, good⟩
        cases among
      rw [type] at numbers within others
      have fits : buf.consumed + portion buf appLen ≤ buf.len := portion_le numbers
      refine ⟨_, _, socketRead_stream type closed holding numbers range, fun c among => ?_, ?_⟩
      · rw [Option.mem_some_iff] at among
        subst among
        exact portion_inside within fits
      have replaced := holding.replace (advanced buf (portion buf appLen))
      split_ifs with done
      · exact ⟨items, replaced.remove, by rwa [type]⟩
      refine ⟨_, replaced, fun other among => ?_⟩
      rw [type]
      rcases mem_cons.1 among with rfl | later
      · exact ⟨advanced_numbers numbers fits, advanced_within numbers within fits⟩
      · exact others other later

theorem readsInside_of_contained {appLens : List Int} (contained : Contained sock) (ranges : ∀ n ∈ appLens, IntRange n) :
    ReadsInside sock appLens := by
  induction appLens generalizing sock with
  | nil => trivial
  | cons appLen rest ih =>
    obtain ⟨after, copied, read, inside, contained'⟩ := socketRead_contained contained (ranges appLen mem_cons_self)
    exact ⟨after, copied, read, inside, ih contained' fun n among => ranges n (mem_cons_of_mem appLen among)⟩

theorem readsInside_closed (closed : Closed sock) (appLens : List Int) : ReadsInside sock appLens := by
  induction appLens with
  | nil => trivial
  | cons appLen rest ih =>
    refine ⟨sock, none, socketRead_closed closed, fun c among => ?_, ih⟩
    cases among

def intMax : Int := 2 ^ 31 - 1

theorem intMax_range : IntRange intMax := ⟨by decide, by decide⟩

theorem socketRead_whole (opened : ¬ Closed sock) (holding : Holding sock.inputQueue (buf :: items))
    (numbers : Numbers sock.networkConn.type buf) :
    ∃ after, socketRead sock intMax = some (after, wholeCopy sock.networkConn.type buf) ∧
      Holding after.inputQueue items ∧ after.networkConn.type = sock.networkConn.type ∧ ¬ Closed after := by
  cases type : sock.networkConn.type with
  | stream =>
    rw [type] at numbers
    have ordered := numbers.1
    have bound := numbers.2
    rw [memNetbufSize] at bound
    have all : portion buf intMax = buf.len - buf.consumed := by
      have long : ¬ (0 ≤ intMax ∧ intMax ≤ (buf.len : Int) - buf.consumed) := by
        rw [intMax]
        omega
      rw [portion, if_neg long]
    have done : buf.len = buf.consumed + portion buf intMax := by omega
    have count : ((portion buf intMax : Nat) : Int) = (buf.len : Int) - buf.consumed := by omega
    have read := socketRead_stream type opened holding numbers intMax_range
    rw [if_pos done, count] at read
    exact ⟨_, read, (holding.replace _).remove, type, opened⟩
  | dgram =>
    have small := totLen_lt buf
    have copied : (udpRead sock.networkConn buf intMax).2 = wholeCopy .dgram buf := by
      have room : intMax > udpDataLen buf := by
        rw [intMax, udpDataLen]
        omega
      rw [udpRead, wholeCopy]
      by_cases positive : udpDataLen buf > 0
      · rw [if_pos ⟨positive, room⟩, if_pos positive]
      · rw [if_neg fun both => positive both.1, if_neg positive]
    have same : (udpRead sock.networkConn buf intMax).1.type = .dgram := (udpRead_type _).trans type
    have read : socketRead sock intMax = _ := socketRead_dgram type holding
    rw [copied] at read
    refine ⟨_, read, holding.remove, same, fun closed => ?_⟩
    rw [Closed, same] at closed
    cases closed.1

theorem reads_reach {last : Buffer} (opened : ¬ Closed sock) (holding : Holding sock.inputQueue (items ++ [last]))
    (numbers : ∀ buf ∈ items ++ [last], Numbers sock.networkConn.type buf)
    (inside : ReadsInside sock (List.replicate (items.length + 1) intMax)) : Within sock.networkConn.type last := by
  induction items generalizing sock with
  | nil =>
    obtain ⟨after, read, _⟩ := socketRead_whole opened holding (numbers last mem_cons_self)
    obtain ⟨after', copied, read', here, _⟩ := inside
    rw [read, Option.some.injEq, Prod.mk.injEq] at read'
    rw [← read'.2] at here
    exact here
  | cons buf items ih =>
    obtain ⟨after, read, rest, type, opened'⟩ := socketRead_whole opened holding (numbers buf mem_cons_self)
    obtain ⟨after', copied, read', _, later⟩ := inside
    rw [read, Option.some.injEq, Prod.mk.injEq] at read'
    rw [← read'.1] at later
    rw [← type] at numbers ⊢
    exact ih opened' rest (fun other among => numbers other (mem_cons_of_mem buf among)) later

end JinyKernel.Net
