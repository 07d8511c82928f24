import JinyKernel.Net.Payload

namespace JinyKernel.Net

open List Option
open Fifo (ContentQueue)
open Fifo.ContentQueue (Holding addToQueue_refused)
open Tcp (tcpUserDataHdr takeAck)

def Safe (sock : Socket) : Prop := Contained sock ∨ Closed sock

structure Sound (net : Tables) : Prop where
  connected : ∀ sock, some sock ∈ net.tcpConnectedList -> sock.networkConn.type = .stream ∧ Safe sock
  datagram : ∀ sock, some sock ∈ net.udpList -> sock.networkConn.type = .dgram ∧ Safe sock

def Readable (sock : Socket) : Prop := ∀ appLens, (∀ n ∈ appLens, IntRange n) -> ReadsInside sock appLens

variable {sock : Socket}

theorem Safe.readable (safe : Safe sock) : Readable sock := by
  intro appLens ranges
  rcases safe with contained | closed
  · exact readsInside_of_contained contained ranges
  · exact readsInside_closed closed appLens

section

variable {sock after : Socket} {buf : Buffer} {len : Nat}

structure Offered (sock after : Socket) (buf : Buffer) (len : Nat) : Prop where
  type : after.networkConn.type = sock.networkConn.type
  queue : after.inputQueue = sock.inputQueue.addToQueue buf len
  numbers : Numbers sock.networkConn.type buf

theorem Offered.safe (offered : Offered sock after buf len) (contained : Contained sock)
    (within : len ≠ 0 -> sock.inputQueue.Room -> ¬ Closed after -> Within sock.networkConn.type buf) : Safe after := by
  obtain ⟨items, holding, good⟩ := contained
  by_cases closed : Closed after
  · exact .inr closed
  left
  by_cases accepted : len ≠ 0 ∧ sock.inputQueue.Room
  · refine ⟨items ++ [buf], ?_, fun other among => ?_⟩
    · rw [offered.queue]
      exact holding.add accepted.2 accepted.1
    rw [offered.type]
    rcases mem_append.1 among with old | new
    · exact good other old
    · rw [mem_singleton.1 new]
      exact ⟨offered.numbers, within accepted.1 accepted.2 closed⟩
  · refine ⟨items, ?_, ?_⟩
    · rw [offered.queue, addToQueue_refused accepted]
      exact holding
    · rw [offered.type]
      exact good

theorem Offered.within (offered : Offered sock after buf len) (contained : Contained sock) (readable : Readable after)
    (positive : len ≠ 0) (room : sock.inputQueue.Room) (opened : ¬ Closed after) :
    Within sock.networkConn.type buf := by
  obtain ⟨items, holding, good⟩ := contained
  have holding' : Holding after.inputQueue (items ++ [buf]) := by
    rw [offered.queue]
    exact holding.add room positive
  have numbers : ∀ other ∈ items ++ [buf], Numbers after.networkConn.type other := by
    intro other among
    rw [offered.type]
    rcases mem_append.1 among with old | new
    · exact (good other old).1
    · rw [mem_singleton.1 new]
      exact offered.numbers
  have inside := readable (List.replicate (items.length + 1) intMax) fun n among => by
    rw [eq_of_mem_replicate among]
    exact intMax_range
  rw [← offered.type]
  exact reads_reach opened holding' numbers inside

theorem within_tcpData (positive : 0 < tcpDataLen buf) :
    Within .stream (tcpData buf) ↔ 10 + 14 + htons buf.totLen ≤ buf.recvLen := by
  have count := Int.toNat_of_nonneg (Int.le_of_lt positive)
  have whole : wholeCopy .stream (tcpData buf) =
      some ⟨tcpData buf, tcpUserDataHdr + (20 + tcpHeaderLen buf), tcpDataLen buf⟩ := by
    rw [wholeCopy, tcpData_len, tcpData_offset, tcpData_consumed, count]
    simp
  rw [Within, whole]
  have sum : (tcpDataLen buf : Int) = htons buf.totLen - (20 + tcpHeaderLen buf) := rfl
  constructor
  · intro inside
    have last := inside _ rfl (tcpDataLen buf - 1).toNat (by dsimp only; omega)
    dsimp only [tcpUserDataHdr, tcpData, Buffer.storeUint64] at last
    omega
  · intro fits copied among k below
    cases among
    dsimp only [tcpUserDataHdr, tcpData, Buffer.storeUint64] at below ⊢
    omega

theorem within_datagram : Within .dgram buf ↔ (20 + 8 < htons buf.totLen -> 10 + htons buf.totLen ≤ buf.recvLen) := by
  have sum : udpDataLen buf = htons buf.totLen - (20 + 8) := rfl
  rw [Within, wholeCopy]
  constructor
  · intro inside positive
    rw [if_pos (by omega)] at inside
    have last := inside _ rfl (udpDataLen buf - 1).toNat (by dsimp only; omega)
    dsimp only at last
    omega
  intro fits copied among k below
  split_ifs at among with positive
  · cases among
    dsimp only at below ⊢
    omega
  · cases among

theorem numbers_tcpData (positive : 0 < tcpDataLen buf) (fits : htons buf.totLen ≤ memNetbufSize) :
    Numbers .stream (tcpData buf) := by
  have sum : (tcpDataLen buf : Int) = htons buf.totLen - (20 + tcpHeaderLen buf) := rfl
  rw [Numbers, tcpData_len, tcpData_offset, tcpData_consumed]
  omega

variable {conn : TcpConnection}

theorem closed_iff (stream : sock.networkConn.type = .stream) (owner : sock.networkConn.tcpConn = some conn) :
    Closed sock ↔ conn.state = .closed := by
  rw [Closed, owner]
  simp [stream]

theorem closed_update {networkConn : NetworkConnection} (stream : networkConn.type = .stream)
    (queue : ContentQueue Buffer) :
    Closed ⟨{ networkConn with tcpConn := some conn }, queue⟩ ↔ conn.state = .closed := by
  rw [Closed]
  simp [stream]

theorem receive_drops (owner : sock.networkConn.tcpConn = some conn) (drops : ¬ Takes conn buf) :
    ∃ after, sock.receive buf = some after ∧ after.networkConn.type = sock.networkConn.type ∧
      (Safe sock -> Safe after) := by
  obtain ⟨ret, conn', out, read, nothing, state⟩ := tcpRead_drops drops
  have received : sock.receive buf =
      some ⟨{ sock.networkConn with tcpConn := some conn' }, sock.inputQueue⟩ := by
    simp [Socket.receive, owner, read, bind_eq_bind, bind_some, if_neg (Int.not_lt.2 nothing)]
  refine ⟨_, received, rfl, fun safe => ?_⟩
  rcases safe with ⟨items, holding, good⟩ | closed
  · exact .inl ⟨items, holding, good⟩
  · exact .inr ((closed_update closed.1 _).2 (state ((closed_iff closed.1 owner).1 closed)))

theorem receive_takes (stream : sock.networkConn.type = .stream) (owner : sock.networkConn.tcpConn = some conn)
    (takes : Takes conn buf) (fits : htons buf.totLen ≤ memNetbufSize) :
    ∃ after, sock.receive buf = some after ∧ Offered sock after (tcpData buf) (tcpDataLen buf).toNat ∧
      (Closed after ↔ conn.state = .closed) := by
  have positive := takes.2.2.1
  have read := tcpRead_takes takes
  rw [if_neg (Nat.not_lt.2 fits)] at read
  have received : sock.receive buf = some ⟨{ sock.networkConn with tcpConn := some (taken conn buf) },
      sock.inputQueue.addToQueue (tcpData buf) (tcpDataLen buf).toNat⟩ := by
    simp only [Socket.receive, owner, read, bind_eq_bind, bind_some, if_pos positive]
  refine ⟨_, received, ⟨rfl, rfl, ?_⟩, ?_⟩
  · rw [stream]
    exact numbers_tcpData positive fits
  · rw [closed_update stream, taken_state]

theorem receive_large (owner : sock.networkConn.tcpConn = some conn) (takes : Takes conn buf)
    (large : ¬ htons buf.totLen ≤ memNetbufSize) : sock.receive buf = none := by
  have read := tcpRead_takes takes
  rw [if_pos (Nat.lt_of_not_le large)] at read
  simp [Socket.receive, owner, read]

def SegmentFits (sock : Socket) (conn : TcpConnection) (buf : Buffer) : Prop :=
  Takes conn buf -> htons buf.totLen ≤ memNetbufSize ∧
    (sock.inputQueue.Room -> conn.state ≠ .closed -> 10 + 14 + htons buf.totLen ≤ buf.recvLen)

variable (stream : sock.networkConn.type = .stream) (owner : sock.networkConn.tcpConn = some conn) (safe : Safe sock)

include stream owner safe

theorem receive_safe (fits : SegmentFits sock conn buf) :
    ∃ after, sock.receive buf = some after ∧ after.networkConn.type = .stream ∧ Safe after := by
  by_cases takes : Takes conn buf
  · obtain ⟨within, inside⟩ := fits takes
    obtain ⟨after, received, offered, closed⟩ := receive_takes stream owner takes within
    refine ⟨after, received, offered.type.trans stream, ?_⟩
    rcases safe with contained | shut
    · apply offered.safe contained
      intro _ room opened
      rw [stream, within_tcpData takes.2.2.1]
      exact inside room fun state => opened (closed.2 state)
    · exact .inr (closed.2 ((closed_iff stream owner).1 shut))
  · obtain ⟨after, received, type, kept⟩ := receive_drops owner takes
    exact ⟨after, received, type.trans stream, kept safe⟩

theorem segmentFits_of_readable (received : sock.receive buf = some after) (readable : Readable after) :
    SegmentFits sock conn buf := by
  intro takes
  by_cases within : htons buf.totLen ≤ memNetbufSize
  · refine ⟨within, fun room opened => ?_⟩
    obtain ⟨after', received', offered, closed⟩ := receive_takes stream owner takes within
    rw [received, some.injEq] at received'
    subst received'
    rcases safe with contained | shut
    · have positive : (tcpDataLen buf).toNat ≠ 0 := by
        have := takes.2.2.1
        omega
      have inside := offered.within contained readable positive room fun shut => opened (closed.1 shut)
      rwa [stream, within_tcpData takes.2.2.1] at inside
    · exact absurd ((closed_iff stream owner).1 shut) opened
  · rw [receive_large owner takes within] at received
    cases received

end

section

variable {bufs : Nat -> Tcp.Packet} {net : Tables} {buf : Buffer}

theorem findSock_some {list : List (Option Socket)} {test : NetworkConnection -> Bool} {i : Nat}
    (found : findSock test list = some i) :
    ∃ sock, list[i]? = some (some sock) ∧ some sock ∈ list ∧ FirstIn list test sock := by
  obtain ⟨sock, entry, passes, first⟩ := findSock_eq_some.1 found
  exact ⟨sock, entry, mem_of_getElem? entry, i, entry, passes, first⟩

theorem mem_set {Good : Socket -> Prop} {list : List (Option Socket)} (good : ∀ sock, some sock ∈ list -> Good sock)
    {i : Nat} {after : Socket} (new : Good after) : ∀ sock, some sock ∈ list.set i (some after) -> Good sock := by
  intro sock among
  rcases mem_or_eq_of_mem_set among with old | same
  · exact good sock old
  · rw [some.inj same]
    exact new

theorem connected_step (tcp : buf.protocol = ipprotoTcp) (frag : buf.fragOff = 0x40) {i : Nat}
    (found : findSock (connectedTest buf) net.tcpConnectedList = some i)
    (entry : net.tcpConnectedList[i]? = some (some sock)) :
    defaultPktProcess bufs net buf = (sock.receive buf).map fun after =>
      { net with tcpConnectedList := net.tcpConnectedList.set i (some after) } := by
  simp only [defaultPktProcess, recipient_connected.2 ⟨tcp, frag, found⟩, entry, join_some, bind_eq_bind, bind_some]
  cases sock.receive buf <;> rfl

theorem unconnected_step (bufs : Nat -> Tcp.Packet) (tcp : buf.protocol = ipprotoTcp) (frag : buf.fragOff = 0x40)
    (unmatched : findSock (connectedTest buf) net.tcpConnectedList = none) :
    ∃ after, defaultPktProcess bufs net buf = some after ∧ after.tcpConnectedList = net.tcpConnectedList ∧
      after.udpList = net.udpList := by
  simp only [defaultPktProcess, recipient, tcp, if_true, frag, ne_eq, not_true_eq_false, if_false, unmatched]
  cases found : findSock (destTest buf) net.tcpListnerList with
  | none => exact ⟨net, rfl, rfl, rfl⟩
  | some i =>
    obtain ⟨sock, entry, -⟩ := findSock_some found
    simp only [entry, join_some, bind_eq_bind, bind_some]
    exact ⟨_, rfl, rfl, rfl⟩

def Socket.offer (sock : Socket) (buf : Buffer) : Socket :=
  { sock with inputQueue := sock.inputQueue.addToQueue buf buf.recvLen }

theorem datagram_step (udp : buf.protocol = ipprotoUdp) {i : Nat}
    (found : findSock (destTest buf) net.udpList = some i) (entry : net.udpList[i]? = some (some sock)) :
    defaultPktProcess bufs net buf = some { net with udpList := net.udpList.set i (some (sock.offer buf)) } := by
  have other : ¬ ipprotoUdp = ipprotoTcp := by decide
  simp [defaultPktProcess, recipient, udp, if_neg other, found, entry, Socket.offer]

theorem unmatched_step (tcp : buf.protocol ≠ ipprotoTcp)
    (unmatched : buf.protocol = ipprotoUdp -> findSock (destTest buf) net.udpList = none) :
    defaultPktProcess bufs net buf = some net := by
  rw [defaultPktProcess, recipient, if_neg tcp]
  split_ifs with udp
  · rw [unmatched udp]
    rfl
  · rfl

theorem not_closed_dgram (dgram : sock.networkConn.type = .dgram) : ¬ Closed sock := by
  rintro ⟨stream, _⟩
  rw [dgram] at stream
  cases stream

theorem offered_datagram (dgram : sock.networkConn.type = .dgram) (buf : Buffer) :
    Offered sock (sock.offer buf) buf buf.recvLen :=
  ⟨rfl, rfl, by rw [dgram]; trivial⟩

theorem Trusted.sound (trusted : Trusted net buf) (sound : Sound net) (bufs : Nat -> Tcp.Packet) :
    ∃ after, defaultPktProcess bufs net buf = some after ∧ Sound after := by
  by_cases tcp : buf.protocol = ipprotoTcp
  · have frag := trusted.frag tcp
    cases found : findSock (connectedTest buf) net.tcpConnectedList with
    | none =>
      obtain ⟨after, done, connected, datagram⟩ := unconnected_step bufs tcp frag found
      exact ⟨after, done, by rw [connected]; exact sound.connected, by rw [datagram]; exact sound.datagram⟩
    | some i =>
      obtain ⟨sock, entry, among, first⟩ := findSock_some found
      obtain ⟨stream, safe⟩ := sound.connected sock among
      have received : ∃ after, sock.receive buf = some after ∧ after.networkConn.type = .stream ∧ Safe after := by
        cases owner : sock.networkConn.tcpConn with
        | none => exact ⟨sock, by rw [Socket.receive, owner], stream, safe⟩
        | some conn => exact receive_safe stream owner safe (trusted.segment tcp sock conn first owner)
      obtain ⟨after, received, good⟩ := received
      refine ⟨_, (connected_step tcp frag found entry).trans (congrArg _ received), ?_, sound.datagram⟩
      exact mem_set sound.connected good
  · cases found : findSock (destTest buf) net.udpList with
    | none => exact ⟨net, unmatched_step tcp fun _ => found, sound⟩
    | some i =>
      by_cases udp : buf.protocol = ipprotoUdp
      · obtain ⟨sock, entry, among, first⟩ := findSock_some found
        obtain ⟨dgram, safe⟩ := sound.datagram sock among
        have contained := safe.resolve_right (not_closed_dgram dgram)
        refine ⟨_, datagram_step udp found entry, sound.connected, mem_set sound.datagram ⟨dgram, ?_⟩⟩
        apply (offered_datagram dgram buf).safe contained
        intro positive room _
        rw [dgram, within_datagram]
        exact trusted.datagram udp sock first positive room
      · exact ⟨net, unmatched_step tcp fun udp' => absurd udp' udp, sound⟩

theorem Sound.socketFor {after : Tables} (sound : Sound after) (found : socketFor net after buf = some sock) :
    Safe sock := by
  rw [Net.socketFor] at found
  split_ifs at found with tcp udp
  · simp only [bind_eq_bind, bind_eq_some_iff, join_eq_some_iff] at found
    obtain ⟨i, _, entry⟩ := found
    exact (sound.connected sock (mem_of_getElem? entry)).2
  · simp only [bind_eq_bind, bind_eq_some_iff, join_eq_some_iff] at found
    obtain ⟨i, _, entry⟩ := found
    exact (sound.datagram sock (mem_of_getElem? entry)).2

theorem Harmless.trusted (harmless : Harmless bufs net buf) (sound : Sound net) : Trusted net buf := by
  obtain ⟨after, done, readable⟩ := harmless
  have frag : buf.protocol = ipprotoTcp -> buf.fragOff = 0x40 := by
    intro tcp
    by_contra fragment
    rw [defaultPktProcess, recipient, if_pos tcp, if_pos fragment] at done
    cases done
  refine ⟨frag, fun tcp sock conn first owner => ?_, fun udp sock first positive room => ?_⟩
  · obtain ⟨i, found, entry⟩ := firstIn_iff.1 first
    obtain ⟨stream, safe⟩ := sound.connected sock (mem_of_getElem? entry)
    rw [connected_step tcp (frag tcp) found entry, map_eq_some_iff] at done
    obtain ⟨sock', received, rfl⟩ := done
    have place : socketFor net { net with tcpConnectedList := net.tcpConnectedList.set i (some sock') } buf =
        some sock' := by
      obtain ⟨inside, _⟩ := List.getElem?_eq_some_iff.1 entry
      simp [socketFor, if_pos tcp, found, getElem?_set_self inside]
    exact segmentFits_of_readable stream owner safe received (readable sock' place)
  obtain ⟨i, found, entry⟩ := firstIn_iff.1 first
  obtain ⟨dgram, safe⟩ := sound.datagram sock (mem_of_getElem? entry)
  have contained := safe.resolve_right (not_closed_dgram dgram)
  rw [datagram_step udp found entry, some.injEq] at done
  subst done
  have other : ¬ ipprotoUdp = ipprotoTcp := by decide
  have place : socketFor net { net with udpList := net.udpList.set i (some (sock.offer buf)) } buf =
      some (sock.offer buf) := by
    obtain ⟨inside, _⟩ := List.getElem?_eq_some_iff.1 entry
    simp only [socketFor, udp, if_neg other, if_true, found, bind_eq_bind, bind_some,
      getElem?_set_self inside, join_some]
  have offered := offered_datagram dgram buf
  have inside := offered.within contained (readable _ place) positive room (not_closed_dgram dgram)
  rwa [dgram, within_datagram] at inside

theorem Trusted.harmless (trusted : Trusted net buf) (sound : Sound net) (bufs : Nat -> Tcp.Packet) :
    Harmless bufs net buf := by
  obtain ⟨after, done, sound'⟩ := trusted.sound sound bufs
  exact ⟨after, done, fun sock found => (sound'.socketFor found).readable⟩

theorem frame_harmless_iff (bufs : Nat -> Tcp.Packet) (net : Tables) (sound : Sound net) (buf : Buffer) :
    (Harmless bufs net buf ↔ Trusted net buf) ∧
    (Trusted net buf -> ∃ after, defaultPktProcess bufs net buf = some after ∧ Sound after) :=
  ⟨⟨fun harmless => harmless.trusted sound, fun trusted => trusted.harmless sound bufs⟩,
    fun trusted => trusted.sound sound bufs⟩

end

def segmentOfHost1 (totHigh totLow frag : UInt8) : Buffer where
  recvLen := 69
  bytes
    | 26 => totHigh
    | 27 => totLow
    | 30 => frag
    | 33 => 6
    | 36 => 1
    | 40 => 9
    | 44 => 7
    | 46 => 80
    | 51 => 1
    | 56 => 0x50
    | 57 => 0x10
    | _ => 0

theorem oneConnected_sound : Sound oneConnected where
  connected := by
    intro sock among
    rw [oneConnected, mem_singleton, some.injEq] at among
    subst among
    refine ⟨rfl, .inl ⟨[], ⟨⟨by decide, by decide, fun k _ => rfl⟩, rfl⟩, fun buf among => ?_⟩⟩
    cases among
  datagram := by
    intro sock among
    cases among

theorem frame_harmless_sample :
    ∃ (bufs : Nat -> Tcp.Packet) (net : Tables) (buf : Buffer), Sound net ∧ tcpDataLen buf = 5 ∧
      Harmless bufs net buf := by
  have trusted : Trusted oneConnected (segmentOfHost1 0 45 0x40) := by
    refine ⟨fun _ => by decide, fun _ _ _ _ _ _ => ⟨by decide, fun _ _ => by decide⟩, fun udp => ?_⟩
    exact absurd udp (by decide)
  exact ⟨fun _ => ⟨{}, 0, 0, []⟩, oneConnected, segmentOfHost1 0 45 0x40, oneConnected_sound, by decide,
    (frame_harmless_iff _ _ oneConnected_sound _).1.2 trusted⟩

theorem header_length_unchecked :
    ∃ bufs : Nat -> Tcp.Packet, Sound oneConnected ∧ ¬ Harmless bufs oneConnected (segmentOfHost1 3 232 0x40) ∧
      (defaultPktProcess bufs oneConnected (segmentOfHost1 78 32 0x40)).isNone = true ∧
      (defaultPktProcess bufs oneConnected (segmentOfHost1 0 45 0)).isNone = true := by
  refine ⟨fun _ => ⟨{}, 0, 0, []⟩, oneConnected_sound, fun harmless => ?_, by decide, by decide⟩
  have trusted := harmless.trusted oneConnected_sound
  have first : FirstIn oneConnected.tcpConnectedList (connectedTest (segmentOfHost1 3 232 0x40)) _ :=
    ⟨0, rfl, by decide, fun j before => absurd before (Nat.not_lt_zero j)⟩
  have takes : Takes connOfHost1 (segmentOfHost1 3 232 0x40) := ⟨by decide, by decide, by decide, by decide⟩
  have inside := (trusted.segment (by decide) _ connOfHost1 first rfl takes).2 rfl (by decide)
  exact absurd inside (by decide)

end JinyKernel.Net
