import JinyKernel.Disk.Model

namespace JinyKernel.Disk

open Option

def ReadRight (driver : Driver) (sectorSize : Nat) (inPageCache : Bool) (len : Int) (offset : Nat) : Prop :=
  ∀ around buf disk out, read driver sectorSize inPageCache len offset false around buf disk = some out ->
    0 < out.ret ->
    offset + out.ret ≤ driver.diskSize ∧ ∀ k, 0 ≤ k -> k < out.ret -> out.buf k = disk (offset + k)

def WriteRight (driver : Driver) (sectorSize : Nat) (inPageCache : Bool) (len : Int) (offset : Nat) : Prop :=
  ∀ around buf disk out, write driver sectorSize inPageCache len offset around buf disk = some out ->
    0 < out.ret ->
    offset + out.ret ≤ driver.diskSize ∧
      ∀ i, out.disk i = if offset ≤ i ∧ i < offset + out.ret then buf (i - offset) else disk i

def held (inPageCache : Bool) (len : Int) (buf page : Bytes) : Bytes := fun j =>
  if inPageCache ∨ (0 ≤ j ∧ j < len) then buf j else page j

theorem held_cached (len : Int) (buf page : Bytes) : held true len buf page = buf := by
  funext j
  simp [held]

theorem held_copied (req : BlkReq) (buf page : Bytes) : held false req.len buf page = createBuf .write req buf page := by
  funext j
  simp [held, createBuf]

structure ReadWindow (diskSize : Nat) (position len shift offset n : Int) : Prop where
  inside : offset + n ≤ diskSize
  placed : position + shift = offset
  started : 0 ≤ shift
  ended : shift + n ≤ len

structure WriteWindow (diskSize : Nat) (inPageCache : Bool) (position len copied offset n : Int) : Prop where
  inside : offset + n ≤ diskSize
  placed : position = offset
  ended : len = n ∨ (offset + n = diskSize ∧ n ≤ len)
  filled : inPageCache = true ∨ n ≤ copied

section

variable {diskSize : Nat} {inPageCache : Bool} {position len copied shift offset n : Int}

theorem ReadWindow.right (window : ReadWindow diskSize position len shift offset n) (disk memory : Bytes) {k : Int}
    (low : 0 ≤ k) (high : k < n) : hostRead diskSize position len disk memory (shift + k) = disk (offset + k) := by
  have ⟨inside, placed, started, ended⟩ := window
  rw [hostRead, if_pos (by omega)]
  exact congrArg disk (by omega)

theorem ReadWindow.of_right (positive : 0 < n) (inside : offset + n ≤ diskSize)
    (right : ∀ disk memory : Bytes, ∀ k, 0 ≤ k -> k < n ->
      hostRead diskSize position len disk memory (shift + k) = disk (offset + k)) :
    ReadWindow diskSize position len shift offset n := by
  -- a disk that differs at one byte tells where that byte was read from
  have told : ∀ k, 0 ≤ k -> k < n -> (0 ≤ shift + k ∧ shift + k < len) ∧ position + (shift + k) = offset + k := by
    intro k low high
    have read := right (fun i => if i = offset + k then 1 else 0) (fun _ => 0) k low high
    by_cases served : 0 ≤ shift + k ∧ shift + k < len ∧ position + (shift + k) < diskSize
    · by_cases same : position + (shift + k) = offset + k
      · exact ⟨⟨served.1, served.2.1⟩, same⟩
      · simp [hostRead, served, same] at read
    · simp [hostRead, served] at read
  have first := told 0 (by omega) positive
  have last := told (n - 1) (by omega) (by omega)
  exact ⟨inside, by omega, by omega, by omega⟩

theorem WriteWindow.right (window : WriteWindow diskSize inPageCache position len copied offset n)
    (buf page disk : Bytes) (i : Int) :
    hostWrite diskSize position len (held inPageCache copied buf page) disk i =
      if offset ≤ i ∧ i < offset + n then buf (i - offset) else disk i := by
  have ⟨inside, _, ended, filled⟩ := window
  rw [hostWrite, window.placed]
  by_cases written : offset ≤ i ∧ i < offset + n
  · rw [if_pos (by omega), if_pos written, held, if_pos]
    cases filled with
    | inl cached => exact Or.inl cached
    | inr short => exact Or.inr (by omega)
  · rw [if_neg (by omega), if_neg written]

theorem WriteWindow.of_right (positive : 0 < n) (sized : 0 < len) (inside : offset + n ≤ diskSize)
    (right : ∀ buf page disk : Bytes, ∀ i, hostWrite diskSize position len (held inPageCache copied buf page) disk i =
      if offset ≤ i ∧ i < offset + n then buf (i - offset) else disk i) :
    WriteWindow diskSize inPageCache position len copied offset n := by
  -- zeros over ones show which bytes are written, ones where they come from
  have written : ∀ i, (position ≤ i ∧ i < position + len ∧ i < diskSize) ↔ (offset ≤ i ∧ i < offset + n) := by
    intro i
    have shown := right (fun _ => 0) (fun _ => 0) (fun _ => 1) i
    by_cases served : position ≤ i ∧ i < position + len ∧ i < diskSize
    · by_cases asked : offset ≤ i ∧ i < offset + n
      · exact ⟨fun _ => asked, fun _ => served⟩
      · simp [hostWrite, held, served, asked] at shown
    · by_cases asked : offset ≤ i ∧ i < offset + n
      · simp [hostWrite, served, asked] at shown
      · exact ⟨fun h => absurd h served, fun h => absurd h asked⟩
  have first := written offset
  have last := written (offset + n - 1)
  have before := written (offset - 1)
  have behind := written (offset + n)
  have placed : position = offset := by omega
  refine ⟨inside, placed, by omega, ?_⟩
  cases inPageCache with
  | true => exact Or.inl rfl
  | false =>
    by_contra long
    have shown := right (fun _ => 1) (fun _ => 0) (fun _ => 0) (offset + n - 1)
    have served := last.2 (by omega)
    have asked : offset ≤ offset + n - 1 ∧ offset + n - 1 < offset + n := by omega
    have uncopied : ¬ (0 ≤ offset + n - 1 - position ∧ offset + n - 1 - position < copied) := by omega
    rw [hostWrite, if_pos served, if_pos asked, held, if_neg (by simpa using uncopied)] at shown
    exact absurd shown (by decide)

end

section

variable {direction : Direction} {driver : Driver} {sectorSize : Nat} {inPageCache : Bool} {len offset : Int}
  {around : Surroundings} {buf page disk : Bytes} {req : BlkReq} {out : Outcome}

theorem makeReq_userData {part : Split} (made : makeReq driver inPageCache part = some req) :
    req.userData = inPageCache := by
  rw [makeReq] at made
  split at made
  · cases made
    rfl
  · exact absurd made (by simp)

theorem BlkReq.hostLen_eq (req : BlkReq) : req.hostLen = max 512 req.len := by
  rw [BlkReq.hostLen]
  split <;> omega

@[simp]
theorem serve_ret (userLen skip : Int) :
    (serve direction driver sectorSize req userLen skip page buf disk).ret = tlen driver userLen skip := by
  cases direction <;> cases cached : req.userData <;> simp [serve, cached]

theorem serve_read_buf {userLen skip k : Int} (low : 0 ≤ k) (high : k < tlen driver userLen skip) :
    (serve .read driver sectorSize req userLen skip page buf disk).buf k =
      hostRead driver.diskSize (req.position sectorSize) req.hostLen disk (if req.userData then buf else page)
        ((if req.userData then 0 else skip) + k) := by
  cases cached : req.userData with
  | false => simp [serve, cached, copyOut, createBuf, low, high]
  | true => simp [serve, cached]

theorem serve_write_disk (userLen skip : Int) :
    (serve .write driver sectorSize req userLen skip page buf disk).disk =
      hostWrite driver.diskSize (req.position sectorSize) req.hostLen (held req.userData req.len buf page) disk := by
  cases cached : req.userData with
  | false => simp [serve, cached, held_copied]
  | true => simp [serve, cached, held_cached]

theorem diskIo_served
    (called : diskIo direction driver sectorSize inPageCache false len offset around buf disk = some out)
    (positive : 0 < out.ret) :
    driver.blkSize ≠ 0 ∧ ∃ req, makeReq driver inPageCache (split driver len offset) = some req ∧
      out = serve direction driver sectorSize req len (split driver len offset).initialSkip around.page buf disk := by
  rw [diskIo] at called
  split at called
  next => exact absurd called (by simp)
  next whole =>
    refine ⟨whole, ?_⟩
    cases made : makeReq driver inPageCache (split driver len offset) with
    | none =>
      simp only [made, Bool.false_eq_true, false_and, if_false] at called
      cases called
      exact absurd positive (by simp)
    | some req =>
      refine ⟨req, rfl, ?_⟩
      simp only [made, Bool.false_eq_true, false_and, if_false] at called
      -- without an entry or in time, the call reports a failure
      split_ifs at called <;> cases called
      · rfl
      all_goals exact absurd positive (by simp)

theorem calls_iff {good : Bytes -> Bytes -> Outcome -> Prop} :
    (∀ around buf disk out, diskIo direction driver sectorSize inPageCache false len offset around buf disk = some out ->
      0 < out.ret -> good buf disk out) ↔
    ∀ req, driver.blkSize ≠ 0 -> makeReq driver inPageCache (split driver len offset) = some req ->
      0 < tlen driver len (split driver len offset).initialSkip -> ∀ page buf disk,
        good buf disk (serve direction driver sectorSize req len (split driver len offset).initialSkip page
          buf disk) := by
  constructor
  · intro right req whole made positive page buf disk
    exact right ⟨true, true, page⟩ buf disk _ (by simp [diskIo, whole, made]) (by rw [serve_ret]; exact positive)
  · intro serves around buf disk out called positive
    obtain ⟨whole, req, made, rfl⟩ := diskIo_served called positive
    rw [serve_ret] at positive
    exact serves req whole made positive around.page buf disk

end

def ReadFits (driver : Driver) (sectorSize : Nat) (inPageCache : Bool) (len : Int) (offset : Nat) : Prop :=
  let part := split driver len (toInt offset)
  let n := tlen driver len part.initialSkip
  ∀ req, driver.blkSize ≠ 0 -> makeReq driver inPageCache part = some req -> 0 < n ->
    ReadWindow driver.diskSize (req.position sectorSize) req.hostLen (if inPageCache then 0 else part.initialSkip)
      offset n

def WriteFits (driver : Driver) (sectorSize : Nat) (inPageCache : Bool) (len : Int) (offset : Nat) : Prop :=
  let part := split driver len (toInt offset)
  let n := tlen driver len part.initialSkip
  ∀ req, driver.blkSize ≠ 0 -> makeReq driver inPageCache part = some req -> 0 < n ->
    WriteWindow driver.diskSize inPageCache (req.position sectorSize) req.hostLen req.len offset n

section

variable {driver : Driver} {sectorSize : Nat} {inPageCache : Bool} {len : Int} {offset : Nat}

theorem readRight_iff :
    ReadRight driver sectorSize inPageCache len offset ↔ ReadFits driver sectorSize inPageCache len offset := by
  refine calls_iff.trans (forall₄_congr fun req whole made positive => ?_)
  simp only [serve_ret]
  constructor
  · intro served
    refine ReadWindow.of_right positive (served (fun _ => 0) (fun _ => 0) (fun _ => 0)).1 fun disk memory k low high => ?_
    have same := (served memory memory disk).2 k low high
    rwa [serve_read_buf low high, makeReq_userData made, ite_self] at same
  · intro window page buf disk
    refine ⟨window.inside, fun k low high => ?_⟩
    rw [serve_read_buf low high, makeReq_userData made]
    exact window.right disk _ low high

theorem writeRight_iff :
    WriteRight driver sectorSize inPageCache len offset ↔ WriteFits driver sectorSize inPageCache len offset := by
  refine calls_iff.trans (forall₄_congr fun req whole made positive => ?_)
  simp only [serve_ret, serve_write_disk, makeReq_userData made]
  constructor
  · intro served
    exact WriteWindow.of_right positive (by rw [req.hostLen_eq]; omega) (served (fun _ => 0) (fun _ => 0) (fun _ => 0)).1
      fun buf page disk => (served page buf disk).2
  · intro window page buf disk
    exact ⟨window.inside, window.right buf page disk⟩

end

-- A call none of whose numbers leaves the range of its type.
structure Plain (driver : Driver) (sectorSize : Nat) (len : Int) (offset : Nat) : Prop where
  blocks : 0 < driver.blkSize
  sectors : sectorSize = driver.blkSize
  inside : offset < driver.diskSize
  sized : driver.diskSize < 2 ^ 64
  started : 0 < len
  requests : 0 ≤ driver.reqBlkSize
  requested : offset + driver.reqBlkSize + driver.blkSize < 2 ^ 31
  ended : offset + len < 2 ^ 31

section

variable {driver : Driver} {sectorSize : Nat} {inPageCache : Bool} {len : Int} {offset : Nat}

def reported (driver : Driver) (len : Int) (offset : Nat) : Int :=
  min len (driver.reqBlkSize - (offset % driver.blkSize : Nat))

section

variable (plain : Plain driver sectorSize len offset)

include plain

theorem Plain.split_eq : split driver len (toInt offset) =
      { sector := (offset / driver.blkSize : Nat), initialSkip := (offset % driver.blkSize : Nat)
        currOffset := (driver.blkSize * (offset / driver.blkSize) : Nat)
        currLen := len + (offset % driver.blkSize : Nat) } := by
  have started := plain.started
  have ended := plain.ended
  have whole := Nat.div_add_mod offset driver.blkSize
  have below := Nat.div_le_self offset driver.blkSize
  have small : offset < 2 ^ 31 := by omega
  have sector := toInt_nat (lt_of_le_of_lt below small)
  have blocks := toUlong_nat (lt_of_le_of_lt below (by omega))
  rw [split, toInt_nat small, toUlong_nat (by omega), sector, blocks, wrap,
    Nat.mul_comm (offset / driver.blkSize), Nat.mod_eq_of_lt (by omega), wrapSub_eq (by omega) (by omega)]
  have rest : offset - driver.blkSize * (offset / driver.blkSize) = offset % driver.blkSize := by omega
  have start : (offset : Int) - (offset % driver.blkSize : Nat) = (driver.blkSize * (offset / driver.blkSize) : Nat) := by
    omega
  have total : toInt (len + (offset % driver.blkSize : Nat)) = len + (offset % driver.blkSize : Nat) :=
    toInt_eq (by omega) (by omega)
  rw [rest, toInt_nat (by omega), start, toInt_nat (by omega), total]

theorem Plain.tlen_eq : tlen driver len (offset % driver.blkSize : Nat) = reported driver len offset := by
  have requests := plain.requests
  have requested := plain.requested
  have part := Nat.mod_le offset driver.blkSize
  rw [tlen, reported, toInt_eq (by omega) (by omega)]
  split <;> omega

theorem Plain.clip_eq : clip driver (split driver len (toInt offset)) =
      min (min (len + (offset % driver.blkSize : Nat)) driver.reqBlkSize)
        (driver.diskSize - (driver.blkSize * (offset / driver.blkSize) : Nat)) := by
  have ⟨_, _, inside, sized, started, requests, requested, _⟩ := plain
  have whole := Nat.div_add_mod offset driver.blkSize
  rw [plain.split_eq, clip]
  dsimp only
  generalize offset % driver.blkSize = skip at *
  have shorter : (if len + (skip : Int) > driver.reqBlkSize then driver.reqBlkSize else len + skip) =
      min (len + skip) driver.reqBlkSize := by
    split <;> omega
  rw [shorter, toInt_eq (by omega) (by omega), toUlong_eq (by omega) (by omega), toUlong_nat (by omega),
    wrapSub_eq (by omega) sized]
  split
  · rw [toInt_eq (by omega) (by omega)]
    omega
  · omega

end

theorem roundUp_eq {blkSize r : Nat} (blocks : 0 < blkSize) (small : r + blkSize < 2 ^ 31) :
    roundUp blkSize r = if blkSize ∣ r then (r : Int) else (blkSize * (r / blkSize) + blkSize : Nat) := by
  have whole := Nat.div_add_mod r blkSize
  have below := Nat.div_le_self r blkSize
  have next : toInt ((r / blkSize : Nat) + 1) = (r / blkSize + 1 : Nat) := by
    rw [← Nat.cast_succ]
    exact toInt_nat (by omega)
  rw [roundUp, toUlong_nat (by omega), toInt_nat (by omega), toUlong_nat (by omega), next, toUlong_nat (by omega),
    Nat.add_mul, Nat.one_mul, Nat.mul_comm (r / blkSize), wrap, wrap, Nat.mod_eq_of_lt (by omega),
    Nat.mod_eq_of_lt (by omega), toInt_nat (by omega)]
  by_cases divides : blkSize ∣ r
  · rw [if_pos divides, if_neg (by rw [Nat.mul_div_cancel' divides]; exact fun h => h rfl)]
  · have rest : r % blkSize ≠ 0 := fun zero => divides (Nat.dvd_of_mod_eq_zero zero)
    rw [if_neg divides, if_pos (by omega)]

variable (plain : Plain driver sectorSize len offset)

include plain

theorem Plain.makeReq_eq : makeReq driver inPageCache (split driver len (toInt offset)) = some
      { sector := offset / driver.blkSize
        len := roundUp driver.blkSize (clip driver (split driver len (toInt offset)))
        userData := inPageCache } := by
  have ⟨_, _, inside, _, started, requests, requested, _⟩ := plain
  have whole := Nat.div_add_mod offset driver.blkSize
  have below := Nat.div_le_self offset driver.blkSize
  have made : (split driver len (toInt offset)).currLen > 0 ∧
      ¬ toUlong (split driver len (toInt offset)).currOffset > driver.diskSize := by
    rw [plain.split_eq]
    dsimp only
    rw [toUlong_nat (by omega)]
    omega
  rw [makeReq, if_pos made, plain.split_eq]
  rw [toUlong_nat (by omega)]

theorem Plain.roundUp_clip (within : offset + reported driver len offset ≤ driver.diskSize) {r : Nat}
    (total : (r : Int) = (offset % driver.blkSize : Nat) + reported driver len offset) :
    roundUp driver.blkSize (clip driver (split driver len (toInt offset))) =
      if driver.blkSize ∣ r then (r : Int) else (driver.blkSize * (r / driver.blkSize) + driver.blkSize : Nat) := by
  have requested := plain.requested
  have whole := Nat.div_add_mod offset driver.blkSize
  have clipped : clip driver (split driver len (toInt offset)) = r := by
    rw [plain.clip_eq]
    rw [reported] at total within
    omega
  rw [clipped]
  refine roundUp_eq plain.blocks ?_
  rw [reported] at total
  omega

theorem Plain.le_roundUp_clip (positive : 0 < reported driver len offset)
    (within : offset + reported driver len offset ≤ driver.diskSize) :
    (offset % driver.blkSize : Nat) + reported driver len offset ≤
      roundUp driver.blkSize (clip driver (split driver len (toInt offset))) := by
  obtain ⟨r, total⟩ := Int.eq_ofNat_of_zero_le (a := (offset % driver.blkSize : Nat) + reported driver len offset)
    (by omega)
  rw [plain.roundUp_clip within total.symm, total]
  split
  · exact le_refl _
  · have whole := Nat.div_add_mod r driver.blkSize
    have part := Nat.mod_lt r plain.blocks
    omega

theorem Plain.request {req : BlkReq}
    (made : makeReq driver inPageCache (split driver len (toInt offset)) = some req) :
    req.len = roundUp driver.blkSize (clip driver (split driver len (toInt offset))) ∧
      req.position sectorSize = (driver.blkSize * (offset / driver.blkSize) : Nat) := by
  rw [plain.makeReq_eq, some.injEq] at made
  rw [← made]
  refine ⟨rfl, ?_⟩
  rw [BlkReq.position, plain.sectors, Nat.mul_comm]

theorem Plain.readFits_iff : ReadFits driver sectorSize inPageCache len offset ↔
      (0 < reported driver len offset -> offset + reported driver len offset ≤ driver.diskSize ∧
        (inPageCache = true -> offset % driver.blkSize = 0)) := by
  have whole := Nat.div_add_mod offset driver.blkSize
  have skipped := congrArg Split.initialSkip plain.split_eq
  rw [ReadFits]
  dsimp only at skipped ⊢
  rw [skipped, plain.tlen_eq]
  constructor
  · intro fits positive
    have window := fits _ plain.blocks.ne' plain.makeReq_eq positive
    have placed := window.placed
    refine ⟨window.inside, fun cached => ?_⟩
    rw [(plain.request plain.makeReq_eq).2, if_pos cached] at placed
    omega
  intro holds req _ made positive
  obtain ⟨within, aligned⟩ := holds positive
  obtain ⟨length, place⟩ := plain.request made
  have long := plain.le_roundUp_clip positive within
  rw [place, req.hostLen_eq, length]
  cases inPageCache with
  | false =>
    simp only [Bool.false_eq_true, if_false]
    exact ⟨within, by omega, by omega, by omega⟩
  | true =>
    have start := aligned rfl
    simp only [if_true]
    exact ⟨within, by omega, le_refl 0, by omega⟩

theorem Plain.writeFits_iff : WriteFits driver sectorSize inPageCache len offset ↔
      (0 < reported driver len offset -> offset % driver.blkSize = 0 ∧
        offset + reported driver len offset ≤ driver.diskSize ∧
        (offset + reported driver len offset = driver.diskSize ∨
          (512 ≤ reported driver len offset ∧ (driver.blkSize : Int) ∣ reported driver len offset))) := by
  have whole := Nat.div_add_mod offset driver.blkSize
  have skipped := congrArg Split.initialSkip plain.split_eq
  rw [WriteFits]
  dsimp only at skipped ⊢
  rw [skipped, plain.tlen_eq]
  constructor
  · intro fits positive
    obtain ⟨within, placed, ended, -⟩ := fits _ plain.blocks.ne' plain.makeReq_eq positive
    rw [(plain.request plain.makeReq_eq).2] at placed
    rw [BlkReq.hostLen_eq, (plain.request plain.makeReq_eq).1] at ended
    have aligned : offset % driver.blkSize = 0 := by omega
    refine ⟨aligned, within, ?_⟩
    cases ended with
    | inr last => exact Or.inl last.1
    | inl same =>
      right
      obtain ⟨r, total⟩ := Int.eq_ofNat_of_zero_le positive.le
      have rounded := plain.roundUp_clip within (r := r) (by omega)
      refine ⟨by omega, ?_⟩
      by_cases divides : driver.blkSize ∣ r
      · rw [total]
        exact Int.natCast_dvd_natCast.2 divides
      -- a request rounded up is longer than what it reports
      have split := Nat.div_add_mod r driver.blkSize
      have part := Nat.mod_lt r plain.blocks
      omega
  · intro holds req _ made positive
    obtain ⟨aligned, within, ended⟩ := holds positive
    obtain ⟨length, place⟩ := plain.request made
    have long := plain.le_roundUp_clip positive within
    refine ⟨within, by omega, ?_, Or.inr (by omega)⟩
    rw [req.hostLen_eq, length]
    cases ended with
    | inl last => exact Or.inr ⟨last, by omega⟩
    | inr whole =>
      obtain ⟨r, total⟩ := Int.eq_ofNat_of_zero_le positive.le
      have divides : driver.blkSize ∣ r := by
        rw [total] at whole
        exact Int.natCast_dvd_natCast.1 whole.2
      rw [plain.roundUp_clip within (r := r) (by omega), if_pos divides]
      omega

end

def smallDisk : Driver := ⟨8192, 512, 4096⟩

theorem transfers_right_iff (driver : Driver) (sectorSize : Nat) (inPageCache : Bool) (len : Int) (offset : Nat) :
    (ReadRight driver sectorSize inPageCache len offset ↔ ReadFits driver sectorSize inPageCache len offset) ∧
    (WriteRight driver sectorSize inPageCache len offset ↔ WriteFits driver sectorSize inPageCache len offset) ∧
    (Plain driver sectorSize len offset ->
      (ReadRight driver sectorSize inPageCache len offset ↔
        (0 < reported driver len offset -> offset + reported driver len offset ≤ driver.diskSize ∧
          (inPageCache = true -> offset % driver.blkSize = 0))) ∧
      (WriteRight driver sectorSize inPageCache len offset ↔
        (0 < reported driver len offset -> offset % driver.blkSize = 0 ∧
          offset + reported driver len offset ≤ driver.diskSize ∧
          (offset + reported driver len offset = driver.diskSize ∨
            (512 ≤ reported driver len offset ∧ (driver.blkSize : Int) ∣ reported driver len offset))))) := by
  refine ⟨readRight_iff, writeRight_iff, fun plain => ⟨?_, ?_⟩⟩
  · rw [readRight_iff]
    exact plain.readFits_iff
  · rw [writeRight_iff]
    exact plain.writeFits_iff

theorem transfers_right_page :
    Plain smallDisk 512 4096 4096 ∧ ReadRight smallDisk 512 true 4096 4096 ∧ WriteRight smallDisk 512 true 4096 4096 := by
  have plain : Plain smallDisk 512 4096 4096 :=
    ⟨by decide, rfl, by decide, by decide, by decide, by decide, by decide, by decide⟩
  have exactly := (transfers_right_iff smallDisk 512 true 4096 4096).2.2 plain
  exact ⟨plain, exactly.1.2 (by decide), exactly.2.2 (by decide)⟩

theorem transfers_wrong : ¬ WriteRight smallDisk 512 false 100 0 ∧ ¬ WriteRight smallDisk 512 false 512 10 ∧
    ¬ ReadRight smallDisk 512 false 200 8092 ∧ ¬ ReadRight smallDisk 512 true 100 10 ∧
    ¬ ReadRight ⟨2 ^ 33, 512, 4096⟩ 512 false 100 (2 ^ 32) := by
  refine ⟨?_, ?_, ?_, ?_, ?_⟩
  · intro right
    have written := (right ⟨true, true, fun _ => 0⟩ (fun _ => 1) (fun _ => 2) _ rfl (by decide)).2 100
    exact absurd written (by decide)
  · intro right
    have written := (right ⟨true, true, fun _ => 0⟩ (fun _ => 1) (fun _ => 2) _ rfl (by decide)).2 0
    exact absurd written (by decide)
  · intro right
    have within := (right ⟨true, true, fun _ => 0⟩ (fun _ => 1) (fun _ => 2) _ rfl (by decide)).1
    exact absurd within (by decide)
  · intro right
    have same := (right ⟨true, true, fun _ => 0⟩ (fun _ => 1) (fun i => if i < 10 then 2 else 3) _ rfl (by decide)).2 0
    exact absurd (same (by decide) (by decide)) (by decide)
  · intro right
    have same := (right ⟨true, true, fun _ => 0⟩ (fun _ => 1) (fun i => if i < 512 then 2 else 3) _ rfl (by decide)).2 0
    exact absurd (same (by decide) (by decide)) (by decide)

end JinyKernel.Disk
