import JinyKernel.Machine

-- `socket::create_new` (fs/socket.cc).

namespace JinyKernel.Sockets

open Function List

def maxSockets : Nat := 100

inductive SocketType
  | stream
  | dgram
  | streamChild
  | other

inductive SockList
  | tcpListnerList
  | tcpConnectedList
  | udpList
  deriving DecidableEq

-- An entry 0 of a list is free; `live` are the allocated sockets.
structure Layer where
  netStack : Bool
  list : SockList -> List Nat
  live : Nat -> Bool

def addSock (list : List Nat) (sock : Nat) : Option (List Nat) :=
  if 0 ∈ list then some (list.set (list.idxOf 0) sock)
  else if list.length < maxSockets then some (list ++ [sock])
  else none

def initSocket (type : SocketType) (opened : Bool) : Bool :=
  match type with
  | .dgram | .stream | .streamChild => opened
  | .other => true

def listOf : SocketType -> SockList
  | .stream => .tcpListnerList
  | .streamChild => .tcpConnectedList
  | .dgram | .other => .udpList

def jfreeObj (s : Layer) (sock : Nat) : Layer := { s with live := update s.live sock false }

def createNew (s : Layer) (argType : SocketType) (sock : Nat) (opened : Bool) : Nat × Layer :=
  if s.netStack = false then (0, s)
  else
    let s := { s with live := update s.live sock true }
    match addSock (s.list (listOf argType)) sock with
    | none => (0, jfreeObj s sock)
    | some list =>
      let s := { s with list := update s.list (listOf argType) list }
      if initSocket argType opened then (sock, s) else (0, jfreeObj s sock)

def Layer.Sound (s : Layer) : Prop := ∀ name, ∀ sock ∈ s.list name, sock ≠ 0 -> s.live sock = true

def SameSockets (s next : Layer) : Prop := ∀ name sock, sock ≠ 0 -> (sock ∈ next.list name ↔ sock ∈ s.list name)

variable {s : Layer} {type : SocketType} {sock : Nat} {opened : Bool}

theorem mem_addSock {list after : List Nat} (added : addSock list sock = some after) : sock ∈ after := by
  rw [addSock] at added
  split_ifs at added with free room
  · cases added
    exact mem_set (idxOf_lt_length_iff.2 free) sock
  · cases added
    exact mem_append_right _ mem_cons_self

theorem Layer.Sound.free (sound : s.Sound) (fresh : s.live sock = false) :
    Layer.Sound (jfreeObj { s with live := update s.live sock true } sock) := by
  intro name other among real
  have lives := sound name other among real
  have apart : other ≠ sock := by
    rintro rfl
    rw [fresh] at lives
    cases lives
  simpa [jfreeObj, apart] using lives

theorem failed_create_iff (sound : s.Sound) (real : sock ≠ 0) (fresh : s.live sock = false) :
    ((createNew s type sock opened).1 = 0 -> SameSockets s (createNew s type sock opened).2 ∧
        (createNew s type sock opened).2.Sound) ↔
      s.netStack = false ∨ addSock (s.list (listOf type)) sock = none ∨ initSocket type opened = true := by
  by_cases stack : s.netStack = false
  · have same : SameSockets s s := fun _ _ _ => .rfl
    simpa [createNew, stack] using ⟨same, sound⟩
  cases added : addSock (s.list (listOf type)) sock with
  | none =>
    have same : SameSockets s (jfreeObj { s with live := update s.live sock true } sock) := fun _ _ _ => .rfl
    simpa [createNew, stack, added] using ⟨same, sound.free fresh⟩
  | some after =>
    cases ready : initSocket type opened with
    | true => simp [createNew, stack, added, ready, real]
    | false =>
      -- the new socket stays in its list
      simp only [createNew, if_neg stack, added, ready]
      refine iff_of_false (fun kept => ?_) (by simp [stack])
      have among := ((kept rfl).1 (listOf type) sock real).1 (by simpa [jfreeObj] using mem_addSock added)
      rw [sound _ sock among real] at fresh
      cases fresh

def noSockets : Layer := ⟨true, fun _ => [], fun _ => false⟩

theorem failed_create_full : ∃ s : Layer, s.Sound ∧ (createNew s .dgram 500 false).1 = 0 ∧
    (createNew s .dgram 500 false).2.Sound := by
  let full : Layer := ⟨true, fun _ => replicate 100 7, fun sock => sock = 7⟩
  have sound : full.Sound := fun _ sock among _ => decide_eq_true (eq_of_mem_replicate among)
  have noRoom : addSock (full.list (listOf .dgram)) 500 = none := by decide
  exact ⟨full, sound, by decide, ((failed_create_iff sound (by decide) rfl).2 (.inr (.inl noRoom)) (by decide)).2⟩

theorem failed_create_dangles : noSockets.Sound ∧ (createNew noSockets .dgram 5 false).1 = 0 ∧
    5 ∈ (createNew noSockets .dgram 5 false).2.list .udpList ∧ (createNew noSockets .dgram 5 false).2.live 5 = false :=
  ⟨fun _ _ among => absurd among not_mem_nil, rfl, by decide, by decide⟩

end JinyKernel.Sockets
