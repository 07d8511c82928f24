import JinyKernel.Net.Checksum

-- `generate_tcp_pkt`: `machdr` stands at 10, `iphdr` at 24, the TCP header at 44 and the data at 64.

namespace JinyKernel.Net

open Words Memory EndAround
open EndAround (Stands wordSum onesSum)
open Memory (store storeAll window)
open Tcp (netHtonl uint32)

structure Sender extends TcpConnection where
  macDest : Vector UInt8 6
  macSrc : Vector UInt8 6

open List

def tcpSyn : UInt8 := 0x02
def tcpPsh : UInt8 := 0x08
def tcpAck : UInt8 := 0x10
def protoTcp : Nat := 6

def iphLen : Nat := 20

def headerSeqno (flags : UInt8) (seqNo : Nat) : Nat :=
  netHtonl (if flags &&& tcpSyn ≠ 0 then uint32 (seqNo + 2 ^ 32 - 1) else seqNo)

variable (conn : Sender)

variable (flags : UInt8)

def headerFields (dataLen seqno : Nat) : List (Nat × List UInt8) :=
  let ipLen := 40 + dataLen
  [(0, replicate 10 0), (10 + 6, conn.macSrc.toList), (10, conn.macDest.toList), (10 + 12, [0x8, 0]),
    (24 + 16, bytesOf 4 conn.ipDaddr), (24 + 12, bytesOf 4 conn.ipSaddr),
    (24 + 6, bytesOf 2 0x40), (24 + 22, bytesOf 2 conn.destport),
    (24 + 20, bytesOf 2 conn.srcport), (24, [0x45, 0x10]), (24 + 8, [0x40]), (24 + 33, [flags]),
    (24 + 9, [0x6]), (24 + 38, [0, 0]), (24 + 34, [0x72, 0x10]),
    (24 + 2, [UInt8.ofNat (ipLen / 2 ^ 8 % 2 ^ 8), UInt8.ofNat (ipLen % 2 ^ 8)]), (24 + 32, [0x50]),
    (24 + 10, bytesOf 2 0),
    (24 + 24, bytesOf 4 seqno),
    (24 + 28, bytesOf 4 (if flags &&& tcpAck ≠ 0 then netHtonl conn.recvSeqNo else 0))]

def dataFields (data : List UInt8) (seqNo : Nat) : List (Nat × List UInt8) :=
  if data.length > 0 then
    [(24 + 33, [flags ||| tcpPsh]), (10 + 14 + 40, data), (24 + 24, bytesOf 4 (netHtonl seqNo))]
  else []

def upperLayerChksum (tcpcksum : Nat) (buf : Nat -> UInt8) (proto : Nat) : Nat :=
  let upperLayerLen := ((buf 26).toNat * 2 ^ 8 + (buf 27).toNat + 2 ^ 16 - iphLen) % 2 ^ 16
  let sum := (upperLayerLen + proto) % 2 ^ 16
  let sum := chksum sum (window buf 36 (2 * 4))
  let segment := window buf 44 upperLayerLen
  let sum := if tcpcksum = 1 then checksumForLarge2 sum segment else chksum sum segment
  if sum = 0 then 0xffff else htons sum

def ipchksum (buf : Nat -> UInt8) : Nat :=
  let sum := chksum 0 (window buf 24 iphLen)
  if sum = 0 then 0xffff else htons sum

def generateTcpPkt (tcpcksum : Nat) (flags : UInt8) (buf : Nat -> UInt8) (data : List UInt8)
    (seqNo : Nat) : (Nat -> UInt8) × Nat :=
  let buf := storeAll buf (headerFields conn flags data.length (headerSeqno flags seqNo) ++
    dataFields flags data seqNo)
  let buf := store buf (24 + 36) (bytesOf 2 0)
  let buf := store buf (24 + 36) (bytesOf 2 (2 ^ 16 - 1 - upperLayerChksum tcpcksum buf protoTcp))
  (store buf (24 + 10) (bytesOf 2 (2 ^ 16 - 1 - ipchksum buf)), 14 + 20 + 20 + data.length)

structure Prepared (dataLen : Nat) (buf : Nat -> UInt8) : Prop where
  version : window buf 24 2 = [0x45, 0x10]
  length : window buf 26 2 = [UInt8.ofNat ((40 + dataLen) / 2 ^ 8 % 2 ^ 8), UInt8.ofNat ((40 + dataLen) % 2 ^ 8)]
  check : window buf 34 2 = bytesOf 2 0
  source : window buf 36 4 = bytesOf 4 conn.ipSaddr
  dest : window buf 40 4 = bytesOf 4 conn.ipDaddr

theorem headerFields_prepared (dataLen seqno : Nat) (buf : Nat -> UInt8) :
    Prepared conn dataLen (storeAll buf (headerFields conn flags dataLen seqno)) := by
  -- every field is the last store to its place
  have shown (k : Nat) {pos : Nat} {data : List UInt8} {back : List (Nat × List UInt8)} (len : Nat)
      (split : headerFields conn flags dataLen seqno =
        (headerFields conn flags dataLen seqno).take k ++ (pos, data) :: back)
      (length : data.length = len) (spared : ∀ field ∈ back, Spares pos len field) :
      window (storeAll buf (headerFields conn flags dataLen seqno)) pos len = data := by
    rw [split]
    exact window_storeAll length spared
  constructor
  · exact shown 9 2 rfl rfl (by simp [Spares])
  · exact shown 15 2 rfl rfl (by simp [Spares])
  · exact shown 17 2 rfl rfl (by simp [Spares])
  · exact shown 5 4 rfl rfl (by simp [Spares])
  · exact shown 4 4 rfl rfl (by simp [Spares])

theorem Prepared.storeAll {conn : Sender} {dataLen : Nat} {buf : Nat -> UInt8} {fields : List (Nat × List UInt8)}
    (prepared : Prepared conn dataLen buf) (behind : ∀ field ∈ fields, 44 ≤ field.1) :
    Prepared conn dataLen (Memory.storeAll buf fields) := by
  have spared (start len : Nat) (before : start + len ≤ 44) :
      window (Memory.storeAll buf fields) start len = window buf start len :=
    Memory.window_storeAll_spared fun field among => .inl (before.trans (behind field among))
  constructor
  · rw [spared _ _ (by decide), prepared.version]
  · rw [spared _ _ (by decide), prepared.length]
  · rw [spared _ _ (by decide), prepared.check]
  · rw [spared _ _ (by decide), prepared.source]
  · rw [spared _ _ (by decide), prepared.dest]

theorem Prepared.store {conn : Sender} {dataLen pos : Nat} {buf : Nat -> UInt8} (prepared : Prepared conn dataLen buf)
    (behind : 44 ≤ pos) (data : List UInt8) : Prepared conn dataLen (store buf pos data) := by
  have alone : ∀ field ∈ [(pos, data)], 44 ≤ field.1 := by simpa using behind
  exact prepared.storeAll alone

theorem dataFields_behind (data : List UInt8) (seqNo : Nat) :
    ∀ field ∈ dataFields flags data seqNo, 44 ≤ field.1 := by
  rw [dataFields]
  split <;> simp

def pseudoHeader (len : Nat) : List UInt8 :=
  bytesOf 4 conn.ipSaddr ++ bytesOf 4 conn.ipDaddr ++
    [0, UInt8.ofNat protoTcp, UInt8.ofNat (len / 2 ^ 8), UInt8.ofNat len]

section

variable {conn : Sender} {dataLen : Nat} {buf : Nat -> UInt8}

theorem wordSum_blank : wordSum (bytesOf 2 0) = 0 := rfl

theorem wordSum_split (buf : Nat -> UInt8) (start front back : Nat) (even : 2 ∣ front)
    (blank : window buf (start + front) 2 = bytesOf 2 0) :
    wordSum (window buf start (front + (2 + back))) =
      wordSum (window buf start front) + wordSum (window buf (start + front + 2) back) := by
  rw [window_add, wordSum_append (by simpa using even), window_add,
    wordSum_append (by simp), blank, wordSum_blank, Nat.zero_add]

theorem Prepared.ipchksum_eq (prepared : Prepared conn dataLen buf) :
    ∃ sum, ipchksum buf = htons sum ∧ sum ≠ 0 ∧
      Stands (2 ^ 16) sum (wordSum (window buf 24 10) + wordSum (window buf 36 8)) := by
  have short : (window buf 24 iphLen).length < 2 ^ 16 := by simp [iphLen]
  have stands := chksum_stands (.refl (Nat.two_pow_pos 16)) short
  have split : wordSum (window buf 24 iphLen) = wordSum (window buf 24 10) + wordSum (window buf 36 8) :=
    wordSum_split buf 24 10 8 (by decide) prepared.check
  rw [split, Nat.zero_add] at stands
  have nonzero : chksum 0 (window buf 24 iphLen) ≠ 0 := by
    rw [Ne, stands.zero, Nat.add_eq_zero_iff, window_add buf 24 2 8, prepared.version,
      wordSum_append (by decide), Nat.add_eq_zero_iff]
    rintro ⟨⟨version, -⟩, -⟩
    revert version
    decide
  exact ⟨_, by rw [ipchksum, if_neg nonzero], nonzero, stands⟩

theorem Prepared.upperLayerLen (prepared : Prepared conn dataLen buf) (fits : dataLen ≤ memNetbufSize - 100) :
    ((buf 26).toNat * 2 ^ 8 + (buf 27).toNat + 2 ^ 16 - iphLen) % 2 ^ 16 = 20 + dataLen := by
  have bytes : [buf 26, buf 27] = _ := prepared.length
  obtain ⟨high, low⟩ := cons.inj bytes
  rw [high, (cons.inj low).1]
  simp only [UInt8.toNat_ofNat', memNetbufSize, iphLen] at fits ⊢
  omega

theorem wordSum_pseudoHeader {len : Nat} (fits : len < 2 ^ 16) :
    wordSum (pseudoHeader conn len) =
      len + protoTcp + wordSum (bytesOf 4 conn.ipSaddr ++ bytesOf 4 conn.ipDaddr) := by
  rw [pseudoHeader, wordSum_append (by simp)]
  simp only [wordSum, bigWords, UInt8.toNat_ofNat, protoTcp, sum_cons, sum_nil]
  simp
  omega

theorem Prepared.upperLayerChksum_eq (prepared : Prepared conn dataLen buf) (fits : dataLen ≤ memNetbufSize - 100)
    (blank : window buf 60 2 = bytesOf 2 0) (tcpcksum : Nat) :
    ∃ sum, upperLayerChksum tcpcksum buf protoTcp = htons sum ∧ sum ≠ 0 ∧
      Stands (2 ^ 16) sum (wordSum (pseudoHeader conn (20 + dataLen) ++ window buf 44 16) +
        wordSum (window buf 62 (2 + dataLen))) := by
  have small : 20 + dataLen + protoTcp < 2 ^ 16 := by
    simp only [memNetbufSize, protoTcp] at *
    omega
  have short : (window buf 44 (20 + dataLen)).length < 2 ^ 16 := by
    rw [length_window]
    omega
  have header : 20 + dataLen + protoTcp + wordSum (window buf 36 8) = wordSum (pseudoHeader conn (20 + dataLen)) := by
    rw [wordSum_pseudoHeader (by omega), window_add buf 36 4 4, prepared.source, prepared.dest]
  have pseudo := chksum_stands (.refl small) (show (window buf 36 8).length < 2 ^ 16 by simp)
  rw [header] at pseudo
  have stands := chksum_stands pseudo short
  have split : wordSum (window buf 44 (20 + dataLen)) =
      wordSum (window buf 44 16) + wordSum (window buf 62 (2 + dataLen)) := by
    have parts := wordSum_split buf 44 16 (2 + dataLen) (by decide) blank
    rwa [show 16 + (2 + (2 + dataLen)) = 20 + dataLen by omega] at parts
  rw [split, ← Nat.add_assoc, ← wordSum_append (by simp [pseudoHeader])] at stands
  have nonzero := mt stands.zero.1 (by
    rw [wordSum_append (by simp [pseudoHeader]), ← header, protoTcp]
    omega)
  refine ⟨_, ?_, nonzero, stands⟩
  -- both settings of the configuration compute the same sum
  rw [upperLayerChksum, prepared.upperLayerLen fits, Nat.mod_eq_of_lt small, checksumForLarge2_eq pseudo.below short,
    ite_self, if_neg nonzero]

end

theorem outgoing_checksums (conn : Sender) (tcpcksum : Nat) (flags : UInt8) (buf : Nat -> UInt8) (data : List UInt8)
    (seqNo : Nat) (fits : data.length ≤ memNetbufSize - 100) :
    onesSum (window (generateTcpPkt conn tcpcksum flags buf data seqNo).1 24 20) = 0xffff ∧
      onesSum (pseudoHeader conn (20 + data.length) ++
        window (generateTcpPkt conn tcpcksum flags buf data seqNo).1 44 (20 + data.length)) = 0xffff := by
  have headers := headerFields_prepared conn flags data.length (headerSeqno flags seqNo) buf
  have filled := headers.storeAll (dataFields_behind flags data seqNo)
  rw [← storeAll_append] at filled
  rw [generateTcpPkt]
  dsimp only
  generalize storeAll buf (headerFields conn flags data.length (headerSeqno flags seqNo) ++ dataFields flags data seqNo) =
    packet at filled ⊢
  have field : 44 ≤ 24 + 36 := by decide
  have zeroed := filled.store field (bytesOf 2 0)
  have blank : window (store packet (24 + 36) (bytesOf 2 0)) 60 2 = bytesOf 2 0 :=
    window_store rfl
  generalize store packet (24 + 36) (bytesOf 2 0) = packet at zeroed blank ⊢
  obtain ⟨upper, isUpper, upperNonzero, upperStands⟩ := zeroed.upperLayerChksum_eq fits blank tcpcksum
  rw [isUpper]
  have segment : window (store packet (24 + 36) (bytesOf 2 (2 ^ 16 - 1 - htons upper))) 44 (20 + data.length) =
      window packet 44 16 ++ bytesOf 2 (2 ^ 16 - 1 - htons upper) ++ window packet 62 (2 + data.length) := by
    rw [show 20 + data.length = 16 + (2 + (2 + data.length)) by omega]
    exact window_store_between 16 (2 + data.length)
  have summed := zeroed.store field (bytesOf 2 (2 ^ 16 - 1 - htons upper))
  generalize store packet (24 + 36) (bytesOf 2 (2 ^ 16 - 1 - htons upper)) = frame at summed segment ⊢
  obtain ⟨lower, isLower, lowerNonzero, lowerStands⟩ := summed.ipchksum_eq
  rw [isLower]
  constructor
  · have header : window (store frame (24 + 10) (bytesOf 2 (2 ^ 16 - 1 - htons lower))) 24 20 =
        window frame 24 10 ++ bytesOf 2 (2 ^ 16 - 1 - htons lower) ++ window frame 36 8 :=
      window_store_between 10 8
    rw [header]
    exact onesSum_completed (by simp) lowerStands lowerNonzero
  · rw [window_store_apart (.inr (by simp)), segment, ← append_assoc, ← append_assoc]
    exact onesSum_completed (by simp [pseudoHeader]) upperStands upperNonzero

theorem outgoing_checksums_three : ∃ conn : Sender, conn.ipSaddr = 1 ∧
    onesSum (window (generateTcpPkt conn 1 tcpAck (fun _ => 0) [1, 2, 3] 7).1 24 20) = 0xffff ∧
      onesSum (pseudoHeader conn 23 ++ window (generateTcpPkt conn 1 tcpAck (fun _ => 0) [1, 2, 3] 7).1 44 23) = 0xffff :=
  ⟨⟨⟨Tcp.tcpConnNew 0 fun _ => ⟨{}, 0, 0, []⟩, 0, 80, 4000, 1, 2⟩, .replicate 6 0, .replicate 6 0⟩, rfl,
    outgoing_checksums _ 1 tcpAck (fun _ => 0) [1, 2, 3] 7 (by decide)⟩

end JinyKernel.Net
