import JinyKernel.Net.Outgoing

-- `udp_write` and `udp_read`: `machdr` stands at 10, `iphdr` at 24, `udphdr` at 44.

namespace JinyKernel.Net

open Words Memory
open Memory (store storeAll window)

structure UdpSender extends NetworkConnection where
  macDest : Vector UInt8 6
  macSrc : Vector UInt8 6

def protoUdp : Nat := 17

variable (conn : UdpSender)

-- Neither `tot_len` nor `len` of the UDP header is stored.
def udpFields (data : List UInt8) : List (Nat × List UInt8) :=
  [(0, List.replicate 10 0), (10 + 6, conn.macSrc.toList), (10, conn.macDest.toList), (10 + 12, [0x8, 0]),
    (24 + 16, bytesOf 4 conn.srcIp), (24 + 12, bytesOf 4 conn.destIp), (24 + 6, bytesOf 2 0x40),
    (44, bytesOf 2 conn.srcPort), (44 + 2, bytesOf 2 conn.destPort), (24 + 10, bytesOf 2 0),
    (10 + 14 + 40, data), (44 + 6, bytesOf 2 0)]

variable (tcpcksum : Nat)

variable (buf : Nat -> UInt8)

variable (data : List UInt8)

def udpChecksum : List UInt8 :=
  bytesOf 2 (2 ^ 16 - 1 - upperLayerChksum tcpcksum (storeAll buf (udpFields conn data)) protoUdp)

def udpFrame : Nat -> UInt8 :=
  let buf := storeAll buf (udpFields conn data ++ [(44 + 6, udpChecksum conn tcpcksum buf data)])
  store buf (24 + 10) (bytesOf 2 (2 ^ 16 - 1 - ipchksum buf))

-- `page` is the answer of `jalloc_page` and `sent` that of `net_send_eth_frame`.
def udpWrite (page : Option (Nat -> UInt8)) (sent : Bool) (data : List UInt8) : Nat × Option ((Nat -> UInt8) × Nat) :=
  if data.length > memNetbufSize then (0, none)
  else match page with
    | none => (0, none)
    | some buf =>
      let sendLen := 14 + 20 + 8 + data.length
      if sent then (sendLen, some (udpFrame conn tcpcksum buf data, sendLen)) else (0, none)

def Buffer.Carries (received : Buffer) (frame : (Nat -> UInt8) × Nat) : Prop :=
  window received.bytes 10 frame.2 = window frame.1 10 frame.2

def udpAnswer : Option Copied -> Int × List UInt8
  | none => (0, [])
  | some copied => (copied.count, window copied.buf.bytes copied.start copied.count.toNat)

-- What stands between byte 38, where `udp_read` looks for the data, and byte 64, where `udp_write` put it.
def headersAhead : List UInt8 :=
  (bytesOf 4 conn.destIp).drop 2 ++ (bytesOf 4 conn.srcIp ++ (bytesOf 2 conn.srcPort ++
    (bytesOf 2 conn.destPort ++ (window buf 48 2 ++ (udpChecksum conn tcpcksum buf data ++ window buf 52 12)))))

section

variable {conn : UdpSender} {tcpcksum : Nat} {buf : Nat -> UInt8} {data : List UInt8}

theorem udpFrame_field (k : Nat) {pos : Nat} {bytes : List UInt8} {back : List (Nat × List UInt8)} (len : Nat)
    (split : udpFields conn data ++ [(44 + 6, udpChecksum conn tcpcksum buf data)] =
      (udpFields conn data ++ [(44 + 6, udpChecksum conn tcpcksum buf data)]).take k ++ (pos, bytes) :: back)
    (length : bytes.length = len) (spared : ∀ field ∈ back, Spares pos len field)
    (apart : pos + len ≤ 34 ∨ 36 ≤ pos) : window (udpFrame conn tcpcksum buf data) pos len = bytes := by
  rw [udpFrame, window_store_apart (by simpa using apart), split]
  exact window_storeAll length spared

theorem udpFrame_old {pos len : Nat}
    (spared : ∀ field ∈ udpFields conn data ++ [(44 + 6, udpChecksum conn tcpcksum buf data)], Spares pos len field)
    (apart : pos + len ≤ 34 ∨ 36 ≤ pos) : window (udpFrame conn tcpcksum buf data) pos len = window buf pos len := by
  rw [udpFrame, window_store_apart (by simpa using apart)]
  exact window_storeAll_spared spared

theorem udpFrame_totLen : window (udpFrame conn tcpcksum buf data) 26 2 = window buf 26 2 :=
  udpFrame_old (by simp [udpFields, udpChecksum, Spares]) (.inl (by decide))

theorem udpFrame_behind : window (udpFrame conn tcpcksum buf data) 38 (26 + data.length) =
    headersAhead conn tcpcksum buf data ++ data := by
  have saddr : window (udpFrame conn tcpcksum buf data) 36 4 = bytesOf 4 conn.destIp :=
    udpFrame_field 5 4 rfl rfl (by simp [udpChecksum, Spares]) (.inr (by decide))
  have saddrEnd : window (udpFrame conn tcpcksum buf data) 38 2 = (bytesOf 4 conn.destIp).drop 2 := by
    rw [← saddr, drop_window]
  have daddr : window (udpFrame conn tcpcksum buf data) 40 4 = bytesOf 4 conn.srcIp :=
    udpFrame_field 4 4 rfl rfl (by simp [udpChecksum, Spares]) (.inr (by decide))
  have source : window (udpFrame conn tcpcksum buf data) 44 2 = bytesOf 2 conn.srcPort :=
    udpFrame_field 7 2 rfl rfl (by simp [udpChecksum, Spares]) (.inr (by decide))
  have dest : window (udpFrame conn tcpcksum buf data) 46 2 = bytesOf 2 conn.destPort :=
    udpFrame_field 8 2 rfl rfl (by simp [udpChecksum, Spares]) (.inr (by decide))
  have length : window (udpFrame conn tcpcksum buf data) 48 2 = window buf 48 2 :=
    udpFrame_old (by simp [udpFields, udpChecksum, Spares]) (.inr (by decide))
  have checksum : window (udpFrame conn tcpcksum buf data) 50 2 = udpChecksum conn tcpcksum buf data :=
    udpFrame_field 12 2 rfl rfl (by simp) (.inr (by decide))
  have gap : window (udpFrame conn tcpcksum buf data) 52 12 = window buf 52 12 :=
    udpFrame_old (by simp [udpFields, udpChecksum, Spares]) (.inr (by decide))
  have payload : window (udpFrame conn tcpcksum buf data) 64 data.length = data :=
    udpFrame_field 10 data.length rfl rfl (by simp [udpChecksum, Spares]) (.inr (by decide))
  have front : window (udpFrame conn tcpcksum buf data) 38 26 = headersAhead conn tcpcksum buf data := by
    rw [headersAhead, ← saddrEnd, ← daddr, ← source, ← dest, ← length, ← checksum, ← gap, ← window_add,
      ← window_add, ← window_add, ← window_add, ← window_add, ← window_add]
  rw [window_add, front, payload]

theorem Buffer.Carries.window_eq {received : Buffer} {frame : (Nat -> UInt8) × Nat} (carries : received.Carries frame)
    {start len : Nat} (behind : 10 ≤ start) (within : start + len ≤ 10 + frame.2) :
    window received.bytes start len = window frame.1 start len := by
  apply window_congr
  intro k inside
  have byte := window_eq_iff.1 carries (start + k - 10) (by omega)
  rwa [show 10 + (start + k - 10) = start + k by omega] at byte

theorem udpDataLen_carried {received : Buffer} {sendLen : Nat} (long : 18 ≤ sendLen)
    (carries : received.Carries (udpFrame conn tcpcksum buf data, sendLen)) :
    udpDataLen received = (htons (ofBytes (window buf 26 2)) : Int) - 28 := by
  have field : window received.bytes 26 2 = window buf 26 2 := by
    rw [carries.window_eq (by decide) (by dsimp only; omega)]
    exact udpFrame_totLen
  rw [udpDataLen, Buffer.totLen, Buffer.load, field]
  rfl

end

theorem udp_round_trip_iff (conn : UdpSender) (remote : NetworkConnection) (tcpcksum : Nat) (buf : Nat -> UInt8)
    (data : List UInt8) (appLen : Int) (received : Buffer) (frame : (Nat -> UInt8) × Nat) (nonempty : 1 ≤ data.length)
    (fits : data.length ≤ memNetbufSize - 100)
    (written : (udpWrite conn tcpcksum (some buf) true data).2 = some frame) (carries : received.Carries frame) :
    udpAnswer (udpRead remote received appLen).2 = ((data.length : Int), data) ↔
      htons (ofBytes (window buf 26 2)) = 28 + data.length ∧ (data.length : Int) < appLen ∧
        (headersAhead conn tcpcksum buf data ++ data).take data.length = data := by
  have small : ¬ data.length > memNetbufSize := Nat.not_lt.2 (fits.trans (by decide))
  rw [udpWrite, if_neg small] at written
  cases written
  have long : 18 ≤ 14 + 20 + 8 + data.length := by omega
  have length := udpDataLen_carried long carries
  have place : window received.bytes 38 data.length = (headersAhead conn tcpcksum buf data ++ data).take data.length := by
    rw [← udpFrame_behind, take_window (by omega)]
    exact carries.window_eq (by decide) (by dsimp only; omega)
  rw [udpRead]
  split
  next served =>
    rw [udpAnswer, Prod.mk.injEq]
    constructor
    · rintro ⟨count, bytes⟩
      dsimp only at count bytes
      rw [count, Int.toNat_natCast] at bytes
      exact ⟨by omega, by omega, place ▸ bytes⟩
    · rintro ⟨left, larger, repeats⟩
      have count : udpDataLen received = data.length := by omega
      rw [count, Int.toNat_natCast]
      exact ⟨rfl, place.trans repeats⟩
  next refused =>
    constructor
    · intro answer
      have zero : (0 : Int) = data.length := congrArg Prod.fst answer
      omega
    · rintro ⟨left, larger, -⟩
      exact absurd ⟨by omega, by omega⟩ refused

def anySender : UdpSender := ⟨{ type := .dgram }, .replicate 6 0, .replicate 6 0⟩

theorem udp_round_trip_byte : ∃ received : Buffer, ∃ frame, ∃ buf,
    (udpWrite anySender 1 (some buf) true [0]).2 = some frame ∧ received.Carries frame ∧
    udpAnswer (udpRead { type := .dgram } received 2).2 = (1, [0]) := by
  let buf : Nat -> UInt8 := fun i => if i = 27 then 29 else 0
  refine ⟨⟨udpFrame anySender 1 buf [0], 53⟩, _, buf, rfl, rfl, ?_⟩
  have answer := (udp_round_trip_iff anySender { type := .dgram } 1 buf [0] 2 ⟨udpFrame anySender 1 buf [0], 53⟩ _
    (by decide) (by decide) rfl rfl).2
  exact answer ⟨by decide, by decide, rfl⟩

theorem datagram_refused : ∃ received : Buffer, ∃ frame,
    (udpWrite anySender 1 (some fun _ => 0) true [1]).2 = some frame ∧ received.Carries frame ∧
    udpAnswer (udpRead { type := .dgram } received 100).2 = (0, []) := by
  have carries : Buffer.Carries ⟨udpFrame anySender 1 (fun _ => 0) [1], 53⟩
    (udpFrame anySender 1 (fun _ => 0) [1], 43) := rfl
  refine ⟨_, _, rfl, carries, ?_⟩
  rfl

end JinyKernel.Net
