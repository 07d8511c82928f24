import JinyKernel.Shared.Census
import JinyKernel.Tcp.Send

namespace JinyKernel.Tcp.Window

open Census List Run

variable (conn : Connection)

def awaiting : Nat := (range maxTcpsndWindow).countP fun i => (conn.sendQueue i).len ≠ 0

inductive Event where
  | write (appData : List UInt8) (jiffies : Nat)
  | housekeeper (jiffies : Nat) (sent : Nat -> Bool)
  | acknowledge (ackno : Nat)

def step : Event -> Option Connection
  | .write appData jiffies => some (tcpWrite conn appData jiffies).1
  | .housekeeper jiffies sent => some (housekeeper conn jiffies sent).1
  | .acknowledge ackno => some { conn with sendAckNo := ackno }

def Passed (i : Nat) : Prop :=
  (conn.sendQueue i).len ≠ 0 ∧ conn.sendAckNo > (conn.sendQueue i).seqNo

def Settled : Event -> Prop
  | .write _ _ => ∀ i < maxTcpsndWindow, Passed conn i -> ∃ j < i, (conn.sendQueue j).len = 0
  | _ => True

def Start : Prop := ∃ seqno bufs, conn = tcpConnNew seqno bufs

section

variable {conn : Connection} {i : Nat}

def inUse (conn : Connection) (i : Nat) : Option Unit := if (conn.sendQueue i).len ≠ 0 then some () else none

theorem inUse_eq_some : inUse conn i = some () ↔ (conn.sendQueue i).len ≠ 0 := by simp [inUse]

theorem awaiting_eq_census (conn : Connection) : awaiting conn = census maxTcpsndWindow (inUse conn) () := by
  rw [awaiting]
  generalize maxTcpsndWindow = n
  induction n with
  | zero => rfl
  | succ n ih =>
    rw [range_succ, countP_append, ih, census_succ]
    by_cases used : (conn.sendQueue n).len = 0
    · simp [inUse, used]
    · simp [inUse, used]

theorem awaiting_setSlot (conn : Connection) (within : i < maxTcpsndWindow) (slot : SendSlot) :
    awaiting (setSlot conn i slot) + (if (conn.sendQueue i).len ≠ 0 then 1 else 0) =
      awaiting conn + if slot.len ≠ 0 then 1 else 0 := by
  have refers : inUse (setSlot conn i slot) =
      Function.update (inUse conn) i (if slot.len ≠ 0 then some () else none) := by
    funext j
    by_cases here : j = i
    · subst here
      simp [inUse, setSlot]
    · simp [inUse, setSlot, here]
  have moved := census_update (inUse conn) () within (if slot.len ≠ 0 then some () else none)
  rw [← refers, ← awaiting_eq_census, ← awaiting_eq_census] at moved
  simpa [inUse_eq_some] using moved

theorem awaiting_eq_zero (conn : Connection) : awaiting conn = 0 ↔ ∀ i < maxTcpsndWindow, (conn.sendQueue i).len = 0 := by
  rw [awaiting, countP_eq_zero]
  simp

def surplus (conn : Connection) : Int := conn.squeueSize - awaiting conn

theorem housekeepLoop_surplus (jiffies : Nat) (sent : Nat -> Bool) (conn : Connection) (n i : Nat)
    (within : i + n ≤ maxTcpsndWindow) : surplus (housekeepLoop jiffies sent conn n i).1 = surplus conn := by
  induction n generalizing conn i with
  | zero => rfl
  | succ n ih =>
    have later := fun conn => ih conn (i + 1) (by omega)
    rw [housekeepLoop]
    by_cases free : (conn.sendQueue i).len = 0
    · simpa only [if_pos free] using later conn
    by_cases passed : conn.sendAckNo > (conn.sendQueue i).seqNo
    · simp only [if_neg free, if_pos passed]
      -- one entry and one of the count go together
      have slots := awaiting_setSlot conn (by omega : i < maxTcpsndWindow) { conn.sendQueue i with len := 0 }
      rw [if_pos free, if_neg (by simp)] at slots
      rw [later]
      change conn.squeueSize - 1 - (awaiting (setSlot conn i { conn.sendQueue i with len := 0 }) : Int) =
        conn.squeueSize - awaiting conn
      omega
    by_cases fresh : jiffies = (conn.sendQueue i).lastsendTs
    · simpa only [if_neg free, if_neg passed, if_pos fresh] using later conn
    cases went : sent i with
    | false => simpa [free, passed, fresh, went] using later conn
    | true =>
      simp only [if_neg free, if_neg passed, if_neg fresh, if_true]
      have slots := awaiting_setSlot conn (by omega : i < maxTcpsndWindow)
        { conn.sendQueue i with lastsendTs := jiffies }
      rw [if_pos free] at slots
      rw [later]
      change conn.squeueSize - (awaiting (setSlot conn i { conn.sendQueue i with lastsendTs := jiffies }) : Int) =
        conn.squeueSize - awaiting conn
      omega

theorem housekeeper_surplus (conn : Connection) (jiffies : Nat) (sent : Nat -> Bool) :
    surplus (housekeeper conn jiffies sent).1 = surplus conn := by
  rw [housekeeper]
  split_ifs
  · rfl
  · exact housekeepLoop_surplus jiffies sent conn maxTcpsndWindow 0 (by omega)

theorem writeLoop_surplus (data : List UInt8) (jiffies : Nat) (conn : Connection) (n i : Nat)
    (within : i + n ≤ maxTcpsndWindow) :
    surplus conn ≤ surplus (writeLoop data jiffies conn n i).1 ∧
      (surplus (writeLoop data jiffies conn n i).1 = surplus conn ↔
        ∀ k, i ≤ k -> k < i + n -> Passed conn k -> ∃ j, i ≤ j ∧ j < k ∧ (conn.sendQueue j).len = 0) := by
  induction n generalizing conn i with
  | zero =>
    refine ⟨le_rfl, iff_of_true rfl fun k low high => ?_⟩
    omega
  | succ n ih =>
    rw [writeLoop]
    by_cases passed : (conn.sendQueue i).len ≠ 0 ∧ conn.sendAckNo > (conn.sendQueue i).seqNo
    · simp only [if_pos passed]
      have slots := awaiting_setSlot conn (by omega : i < maxTcpsndWindow) { conn.sendQueue i with len := 0 }
      rw [if_pos passed.1, if_neg (by simp)] at slots
      have ahead : surplus (setSlot conn i { conn.sendQueue i with len := 0 }) = surplus conn + 1 := by
        change conn.squeueSize - (awaiting (setSlot conn i { conn.sendQueue i with len := 0 }) : Int) =
          conn.squeueSize - awaiting conn + 1
        omega
      have more := (ih (setSlot conn i { conn.sendQueue i with len := 0 }) (i + 1) (by omega)).1
      rw [ahead] at more
      refine ⟨Int.le_trans (by omega) more, iff_of_false (fun same => ?_) fun settled => ?_⟩
      · have level := Int.le_trans more (Int.le_of_eq same)
        omega
      · obtain ⟨j, low, high, _⟩ := settled i le_rfl (by omega) passed
        omega
    by_cases free : (conn.sendQueue i).len = 0
    · simp only [if_neg passed, if_pos free]
      have slots := awaiting_setSlot conn (by omega : i < maxTcpsndWindow)
        ⟨(generateTcpPkt conn { ack := true } data conn.sendSeqNo).1,
          (generateTcpPkt conn { ack := true } data conn.sendSeqNo).2, conn.sendSeqNo, jiffies⟩
      rw [if_neg (by simpa using free), if_pos (by simp [generateTcpPkt])] at slots
      have same : surplus (Send.filled conn i data jiffies) = surplus conn := by
        change conn.squeueSize + 1 - (awaiting (setSlot conn i _) : Int) = conn.squeueSize - awaiting conn
        omega
      refine ⟨same.ge, iff_of_true same fun k low high there => ⟨i, le_rfl, ?_, free⟩⟩
      have other : k ≠ i := by
        rintro rfl
        exact there.1 free
      omega
    · simp only [if_neg passed, if_neg free]
      obtain ⟨more, same⟩ := ih conn (i + 1) (by omega)
      refine ⟨more, same.trans ⟨fun settled k low high there => ?_, fun settled k low high there => ?_⟩⟩
      · have other : k ≠ i := by
          rintro rfl
          exact passed there
        obtain ⟨j, after, before, found⟩ := settled k (by omega) (by omega) there
        exact ⟨j, by omega, before, found⟩
      · obtain ⟨j, after, before, found⟩ := settled k (by omega) (by omega) there
        have other : j ≠ i := by
          rintro rfl
          exact free found
        exact ⟨j, by omega, before, found⟩

theorem step_surplus {event : Event} {next : Connection} (moved : step conn event = some next) :
    surplus next = surplus conn ↔ Settled conn event := by
  cases event with
  | write appData jiffies =>
    cases moved
    have loop := (writeLoop_surplus (writable appData) jiffies conn maxTcpsndWindow 0 (by omega)).2
    simpa [Settled, tcpWrite] using loop
  | housekeeper jiffies sent =>
    cases moved
    exact iff_of_true (housekeeper_surplus conn jiffies sent) trivial
  | acknowledge ackno =>
    cases moved
    exact iff_of_true rfl trivial

theorem Start.surplus (start : Start conn) : surplus conn = 0 := by
  obtain ⟨seqno, bufs, rfl⟩ := start
  rfl

end

theorem squeue_size_exact (conn : Connection) (reached : Reachable Start step Settled conn) :
    conn.squeueSize = awaiting conn ∧
      (conn.squeueSize = 0 ↔ ∀ i < maxTcpsndWindow, (conn.sendQueue i).len = 0) ∧
      ∀ event next, step conn event = some next -> (next.squeueSize = awaiting next ↔ Settled conn event) := by
  have level : surplus conn = 0 := reached.invariant (fun _ => Start.surplus)
    fun _ _ _ before may moved => ((step_surplus moved).2 may).trans before
  have exact : conn.squeueSize = awaiting conn := Int.sub_eq_zero.1 level
  refine ⟨exact, ?_, fun event next moved => ?_⟩
  · rw [exact, ← awaiting_eq_zero]
    exact Int.natCast_eq_zero
  · rw [← step_surplus moved, level]
    exact Int.sub_eq_zero.symm

def blank : Packet := ⟨{}, 0, 0, []⟩

instance (conn : Connection) : (event : Event) -> Decidable (Settled conn event)
  | .write _ _ => inferInstanceAs (Decidable (∀ i < maxTcpsndWindow, (_ ∧ _) -> ∃ j < i, (conn.sendQueue j).len = 0))
  | .housekeeper _ _ | .acknowledge _ => inferInstanceAs (Decidable True)

def firstReleased : List Event :=
  [.write [1, 2] 0, .write [3, 4] 1, .write [5, 6] 2, .acknowledge 0x20002, .housekeeper 3 fun _ => true]

theorem squeue_size_exact_two : ∃ conn, Reachable Start step Settled conn ∧ awaiting conn = 2 ∧ conn.squeueSize = 2 := by
  have outcome : (firstReleased.foldlM (fun conn event => if decide (Settled conn event) then step conn event else none)
      (tcpConnNew 0 fun _ => blank)).any (fun conn => awaiting conn = 2) = true := by decide +kernel
  obtain ⟨conn, ran, two⟩ := holds_of_any outcome
  have reached : Reachable Start step Settled conn := .checked (fun _ _ _ => of_decide_eq_true) (.start ⟨_, _, rfl⟩) ran
  exact ⟨conn, reached, two, (squeue_size_exact conn reached).1.trans (by rw [two]; rfl)⟩

def releasedByWrite : List Event := [.write [1, 2] 0, .acknowledge 0x20002, .write [3, 4] 1, .acknowledge 0x20004,
  .housekeeper 2 fun _ => true]

theorem squeue_size_ahead : ∃ conn, Reachable Start step (fun _ _ => True) conn ∧ awaiting conn = 0 ∧
    conn.squeueSize = 1 := by
  have start : Start (tcpConnNew 0 fun _ => blank) := ⟨_, _, rfl⟩
  have outcome : (releasedByWrite.foldlM step (tcpConnNew 0 fun _ => blank)).any
      (fun conn => awaiting conn = 0 ∧ conn.squeueSize = 1) = true := by decide +kernel
  obtain ⟨conn, ran, facts⟩ := holds_of_any outcome
  exact ⟨conn, (Reachable.start start).foldlM (fun _ _ _ => trivial) ran, facts⟩

end JinyKernel.Tcp.Window
