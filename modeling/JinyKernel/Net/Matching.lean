import JinyKernel.Net.Model

namespace JinyKernel.Net

open List Option

def Own (conn : TcpConnection) (buf : Buffer) : Prop :=
  buf.saddr = conn.ipDaddr ∧ buf.source = conn.destport ∧ buf.daddr = conn.ipSaddr ∧ buf.dest = conn.srcport

instance (conn : TcpConnection) (buf : Buffer) : Decidable (Own conn buf) := by
  rw [Own]
  infer_instance

variable (net : Tables)

variable (buf : Buffer)

structure KeptApart : Prop where
  passed : ∀ (i : Nat) (sock : Socket) (conn : TcpConnection), recipient net buf = some (.connected i) ->
    net.tcpConnectedList[i]? = some (some sock) -> sock.networkConn.tcpConn = some conn -> Own conn buf
  duplicate : ∀ (i : Nat) (sock : Socket), recipient net buf = some (.listner i) ->
    net.tcpListnerList[i]? = some (some sock) -> (packet buf).flags.syn = true ->
    pendingLoop buf.source sock.networkConn.newTcpConn 0 none = none ->
      ∃ pending, some pending ∈ sock.networkConn.newTcpConn ∧ pending.destport = buf.source ∧ pending.ipDaddr = buf.saddr

def FirstIn (list : List (Option Socket)) (test : NetworkConnection -> Bool) (sock : Socket) : Prop :=
  ∃ i : Nat, list[i]? = some (some sock) ∧ test sock.networkConn = true ∧
    ∀ j < i, ∀ other, list[j]? = some (some other) -> test other.networkConn = false

-- The first connected socket with the ports has the addresses as well, and a pending connection with the
-- remote port the remote address.
structure AddressesAgree : Prop where
  connected : ∀ sock conn, FirstIn net.tcpConnectedList (fun c => buf.dest = c.srcPort && buf.source = c.destPort) sock ->
    sock.networkConn.tcpConn = some conn ->
      conn.ipDaddr = buf.saddr ∧ conn.destport = buf.source ∧ conn.ipSaddr = buf.daddr ∧ conn.srcport = buf.dest
  pending : buf.flags.testBit 1 = true ->
    (∀ sock, some sock ∈ net.tcpConnectedList ->
      ¬ (buf.dest = sock.networkConn.srcPort ∧ buf.source = sock.networkConn.destPort)) ->
    ∀ sock, FirstIn net.tcpListnerList (fun c => buf.dest = c.srcPort) sock ->
      ∀ pending, some pending ∈ sock.networkConn.newTcpConn -> pending.destport = buf.source ->
        ∃ same, some same ∈ sock.networkConn.newTcpConn ∧ same.destport = buf.source ∧ same.ipDaddr = buf.saddr

variable {test : NetworkConnection -> Bool} {list : List (Option Socket)} {i k : Nat} {sock : Socket} {net : Tables}
  {buf : Buffer}

theorem findSock_eq_some :
    findSock test list = some i ↔ ∃ sock, list[i]? = some (some sock) ∧ test sock.networkConn = true ∧
      ∀ j < i, ∀ other, list[j]? = some (some other) -> test other.networkConn = false := by
  rw [findSock, findIdx?_eq_some_iff_getElem]
  constructor
  · rintro ⟨inside, passes, first⟩
    rw [Option.any_eq_true] at passes
    obtain ⟨sock, entry, passes⟩ := passes
    refine ⟨sock, by rw [getElem?_eq_getElem inside, entry], passes, fun j before other at_j => ?_⟩
    have fails := first j before
    rw [getElem?_eq_getElem (before.trans inside), some.injEq] at at_j
    simpa [at_j] using fails
  rintro ⟨sock, entry, passes, first⟩
  obtain ⟨inside, entry⟩ := List.getElem?_eq_some_iff.1 entry
  refine ⟨inside, by rw [entry]; exact passes, fun j before => ?_⟩
  have within := before.trans inside
  cases found : list[j] with
  | none => simp
  | some other =>
    have fails := first j before other (by rw [getElem?_eq_getElem within, found])
    simpa using fails

theorem findSock_eq_none : findSock test list = none ↔ ∀ sock, some sock ∈ list -> test sock.networkConn = false := by
  rw [findSock, findIdx?_eq_none_iff]
  constructor
  · intro fails sock among
    simpa using fails (some sock) among
  intro fails entry among
  cases entry with
  | none => rfl
  | some sock => simpa using fails sock among

theorem pendingLoop_eq_none {srcport : Nat} {list : List (Option TcpConnection)} {emptyI : Option Nat} :
    pendingLoop srcport list i emptyI = none ↔ ∃ pending, some pending ∈ list ∧ pending.destport = srcport := by
  induction list generalizing i emptyI with
  | nil => simp [pendingLoop]
  | cons entry rest ih =>
    cases entry with
    | none => simp [pendingLoop, ih]
    | some pending =>
      by_cases same : pending.destport = srcport
      · simp [pendingLoop, same]
      · simp [pendingLoop, same, ih]

theorem pendingLoop_slot {srcport : Nat} {list : List (Option TcpConnection)} {emptyI : Option Nat}
    (found : pendingLoop srcport list i emptyI = some (some k)) :
    emptyI = some k ∨ i ≤ k ∧ list[k - i]? = some none := by
  induction list generalizing i emptyI with
  | nil =>
    rw [pendingLoop, some.injEq] at found
    exact .inl found
  | cons entry rest ih =>
    have later {emptyI : Option Nat} (found : pendingLoop srcport rest (i + 1) emptyI = some (some k)) :
        emptyI = some k ∨ i ≤ k ∧ (entry :: rest)[k - i]? = some none := by
      rcases ih found with early | ⟨behind, slot⟩
      · exact .inl early
      · refine .inr ⟨by omega, ?_⟩
        rwa [show k - i = k - (i + 1) + 1 by omega, getElem?_cons_succ]
    cases entry with
    | some pending =>
      rw [pendingLoop] at found
      split_ifs at found
      exact later found
    | none =>
      rcases later found with early | slot
      · cases emptyI with
        | some first => exact .inl (by simpa using early)
        | none =>
          -- the slot just passed is the first empty one
          have here : i = k := by simpa using early
          subst here
          exact .inr ⟨Nat.le_refl i, by rw [Nat.sub_self, getElem?_cons_zero]⟩
      · exact .inr slot

theorem firstIn_iff : FirstIn list test sock ↔ ∃ i, findSock test list = some i ∧ list[i]? = some (some sock) := by
  constructor
  · rintro ⟨i, entry, passes, first⟩
    exact ⟨i, findSock_eq_some.2 ⟨sock, entry, passes, first⟩, entry⟩
  rintro ⟨i, found, entry⟩
  obtain ⟨other, entry', passes, first⟩ := findSock_eq_some.1 found
  rw [entry, some.injEq, some.injEq] at entry'
  subst entry'
  exact ⟨i, entry, passes, first⟩

theorem recipient_connected : recipient net buf = some (.connected i) ↔ buf.protocol = ipprotoTcp ∧ buf.fragOff = 0x40 ∧
    findSock (connectedTest buf) net.tcpConnectedList = some i := by
  rw [recipient]
  split_ifs with tcp frag udp
  · simp [frag]
  · cases findSock (connectedTest buf) net.tcpConnectedList with
    | some j => simp [tcp, not_not.1 frag]
    | none => cases findSock (destTest buf) net.tcpListnerList <;> simp
  · cases findSock (destTest buf) net.udpList <;> simp [tcp]
  · simp [tcp]

theorem recipient_listner : recipient net buf = some (.listner i) ↔ buf.protocol = ipprotoTcp ∧ buf.fragOff = 0x40 ∧
    findSock (connectedTest buf) net.tcpConnectedList = none ∧ findSock (destTest buf) net.tcpListnerList = some i := by
  rw [recipient]
  split_ifs with tcp frag udp
  · simp [frag]
  · cases findSock (connectedTest buf) net.tcpConnectedList with
    | some j => simp
    | none => cases findSock (destTest buf) net.tcpListnerList <;> simp [tcp, not_not.1 frag]
  · cases findSock (destTest buf) net.udpList <;> simp [tcp]
  · simp [tcp]

theorem keptApart_iff : KeptApart net buf ↔
    (buf.protocol = ipprotoTcp -> buf.fragOff = 0x40 -> AddressesAgree net buf) := by
  have unmatched : findSock (connectedTest buf) net.tcpConnectedList = none ↔ ∀ sock, some sock ∈ net.tcpConnectedList ->
      ¬ (buf.dest = sock.networkConn.srcPort ∧ buf.source = sock.networkConn.destPort) := by
    simp only [findSock_eq_none, connectedTest, Bool.and_eq_false_imp, decide_eq_true_eq,
      decide_eq_false_iff_not, not_and]
  constructor
  · intro apart tcp frag
    constructor
    · intro sock conn first owner
      obtain ⟨i, found, entry⟩ := firstIn_iff.1 first
      obtain ⟨saddr, source, daddr, dest⟩ := apart.passed i sock conn (recipient_connected.2 ⟨tcp, frag, found⟩) entry
        owner
      exact ⟨saddr.symm, source.symm, daddr.symm, dest.symm⟩
    · intro syn unconnected sock first pending among port
      obtain ⟨i, found, entry⟩ := firstIn_iff.1 first
      exact apart.duplicate i sock (recipient_listner.2 ⟨tcp, frag, unmatched.2 unconnected, found⟩) entry syn
        (pendingLoop_eq_none.2 ⟨pending, among, port⟩)
  · intro agree
    constructor
    · intro i sock conn passed entry owner
      obtain ⟨tcp, frag, found⟩ := recipient_connected.1 passed
      obtain ⟨saddr, source, daddr, dest⟩ :=
        (agree tcp frag).connected sock conn (firstIn_iff.2 ⟨i, found, entry⟩) owner
      exact ⟨saddr.symm, source.symm, daddr.symm, dest.symm⟩
    · intro i sock offered entry syn duplicate
      obtain ⟨tcp, frag, unconnected, found⟩ := recipient_listner.1 offered
      obtain ⟨pending, among, port⟩ := pendingLoop_eq_none.1 duplicate
      exact (agree tcp frag).pending syn (unmatched.1 unconnected) sock (firstIn_iff.2 ⟨i, found, entry⟩)
        pending among port

theorem tcpReadListenPkts_pending (bufs : Nat -> Tcp.Packet) {conn : NetworkConnection} (newConn : Nat) (buf : Buffer)
    {pending : TcpConnection} (entry : conn.newTcpConn[k]? = some (some pending)) :
    (tcpReadListenPkts bufs conn newConn buf).1.newTcpConn[k]? = some (some pending) := by
  rw [tcpReadListenPkts]
  split_ifs
  · rw [tcpConnNew]
    split
    next => exact entry
    next => exact entry
    next slot found =>
      have elsewhere : slot ≠ k := by
        rintro rfl
        rcases pendingLoop_slot found with early | ⟨_, empty⟩
        · cases early
        · rw [Nat.sub_zero, entry] at empty
          cases empty
      rw [getElem?_set_ne elsewhere]
      exact entry
  · exact entry

section

variable {bufs : Nat -> Tcp.Packet} {after : Tables} (done : defaultPktProcess bufs net buf = some after)

include done

theorem defaultPktProcess_cases :
    (after.tcpConnectedList = net.tcpConnectedList ∨ ∃ k changed, recipient net buf = some (.connected k) ∧
      after.tcpConnectedList = net.tcpConnectedList.set k changed) ∧
    (after.tcpListnerList = net.tcpListnerList ∨ ∃ k first, net.tcpListnerList[k]? = some (some first) ∧
      after.tcpListnerList = net.tcpListnerList.set k (some { first with
        networkConn := (tcpReadListenPkts bufs first.networkConn net.statTcpNewConn buf).1 })) := by
  obtain ⟨chosen, found, ran⟩ := bind_eq_some_iff.1 done
  cases chosen with
  | connected k =>
    obtain ⟨_, -, ran⟩ := bind_eq_some_iff.1 ran
    obtain ⟨_, -, ran⟩ := bind_eq_some_iff.1 ran
    cases ran
    exact ⟨.inr ⟨k, _, found, rfl⟩, .inl rfl⟩
  | listner k =>
    obtain ⟨first, entry, ran⟩ := bind_eq_some_iff.1 ran
    cases ran
    exact ⟨.inl rfl, .inr ⟨k, first, join_eq_some_iff.1 entry, rfl⟩⟩
  | datagram k =>
    obtain ⟨_, -, ran⟩ := bind_eq_some_iff.1 ran
    cases ran
    exact ⟨.inl rfl, .inl rfl⟩
  | nobody =>
    cases ran
    exact ⟨.inl rfl, .inl rfl⟩

theorem defaultPktProcess_connected (entry : net.tcpConnectedList[i]? = some (some sock))
    (other : recipient net buf ≠ some (.connected i)) : after.tcpConnectedList[i]? = some (some sock) := by
  rcases (defaultPktProcess_cases done).1 with same | ⟨k, _, found, same⟩
  · rwa [same]
  have elsewhere : k ≠ i := fun here => other (here ▸ found)
  rwa [same, getElem?_set_ne elsewhere]

theorem defaultPktProcess_pending {pending : TcpConnection} (entry : net.tcpListnerList[i]? = some (some sock))
    (waits : sock.networkConn.newTcpConn[k]? = some (some pending)) :
    ∃ sock', after.tcpListnerList[i]? = some (some sock') ∧ sock'.networkConn.newTcpConn[k]? = some (some pending) := by
  rcases (defaultPktProcess_cases done).2 with same | ⟨j, first, chosen, same⟩
  · exact ⟨sock, by rwa [same], waits⟩
  rw [same]
  by_cases here : j = i
  · subst here
    cases entry.symm.trans chosen
    obtain ⟨inside, _⟩ := List.getElem?_eq_some_iff.1 entry
    exact ⟨_, getElem?_set_self inside, tcpReadListenPkts_pending bufs net.statTcpNewConn buf waits⟩
  · exact ⟨sock, by rwa [getElem?_set_ne here], waits⟩

end

structure OthersKept (net after : Tables) (host : Nat) : Prop where
  connected : ∀ (i : Nat) (sock : Socket) (conn : TcpConnection), net.tcpConnectedList[i]? = some (some sock) ->
    sock.networkConn.tcpConn = some conn -> conn.ipDaddr ≠ host -> after.tcpConnectedList[i]? = some (some sock)
  pending : ∀ (i k : Nat) (sock : Socket) (pending : TcpConnection), net.tcpListnerList[i]? = some (some sock) ->
    sock.networkConn.newTcpConn[k]? = some (some pending) ->
    ∃ sock', after.tcpListnerList[i]? = some (some sock') ∧ sock'.networkConn.newTcpConn[k]? = some (some pending)

theorem segments_kept_apart_iff (bufs : Nat -> Tcp.Packet) (net : Tables) (buf : Buffer) :
    (KeptApart net buf ↔ (buf.protocol = ipprotoTcp -> buf.fragOff = 0x40 -> AddressesAgree net buf)) ∧
    (KeptApart net buf -> ∀ after, defaultPktProcess bufs net buf = some after -> OthersKept net after buf.saddr) := by
  refine ⟨keptApart_iff, fun apart after done => ⟨?_, ?_⟩⟩
  · intro i sock conn entry owner stranger
    apply defaultPktProcess_connected done entry
    intro passed
    exact stranger (apart.passed i sock conn passed entry owner).1.symm
  · intro i k sock pending entry waits
    exact defaultPktProcess_pending done entry waits

def connOfHost1 : TcpConnection :=
  { toConnection := Tcp.tcpConnNew 0 fun _ => ⟨{}, 0, 0, []⟩
    connNo := 1
    srcport := 80
    destport := 7
    ipSaddr := 9
    ipDaddr := 1 }

def resetOf (host : UInt8) : Buffer where
  recvLen := 64
  bytes
    | 27 => 40
    | 30 => 0x40
    | 33 => 6
    | 36 => host
    | 40 => 9
    | 44 => 7
    | 46 => 80
    | 56 => 0x50
    | 57 => 4
    | _ => 0

def oneConnected : Tables where
  tcpConnectedList :=
    [some ⟨{ type := .stream, srcPort := 80, destPort := 7, tcpConn := some connOfHost1 }, { maxQueueLength := 4 }⟩]
  tcpListnerList := []
  udpList := []
  statTcpNewConn := 2

theorem oneConnected_agrees : AddressesAgree oneConnected (resetOf 1) := by
  refine ⟨fun sock conn first owner => ?_, fun syn => ?_⟩
  · obtain ⟨i, entry, -⟩ := first
    have among := mem_of_getElem? entry
    rw [oneConnected, mem_singleton, some.injEq] at among
    subst among
    cases owner
    decide
  · exact absurd syn (by decide)

theorem segments_kept_apart_own : KeptApart oneConnected (resetOf 1) ∧
    recipient oneConnected (resetOf 1) = some (.connected 0) ∧
    ∀ after, defaultPktProcess (fun _ => ⟨{}, 0, 0, []⟩) oneConnected (resetOf 1) = some after ->
      OthersKept oneConnected after 1 := by
  have matching := segments_kept_apart_iff (fun _ => ⟨{}, 0, 0, []⟩) oneConnected (resetOf 1)
  have apart := matching.1.2 fun _ _ => oneConnected_agrees
  exact ⟨apart, rfl, matching.2 apart⟩

theorem reset_of_other_host_closes : ¬ KeptApart oneConnected (resetOf 2) ∧ connOfHost1.state = .estabilished ∧
    (defaultPktProcess (fun _ => ⟨{}, 0, 0, []⟩) oneConnected (resetOf 2)).any
      (fun after => after.tcpConnectedList.any fun entry => entry.any fun sock =>
        sock.networkConn.tcpConn.any fun conn => conn.ipDaddr = 1 && conn.state = .closed) = true := by
  refine ⟨fun apart => ?_, rfl, by decide⟩
  have own := apart.passed 0 _ connOfHost1 rfl rfl rfl
  exact absurd own (by decide)

end JinyKernel.Net
