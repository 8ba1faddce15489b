import Sandcat.WsServer
import Sandcat.Connections
import Sandcat.Lib.Runs

/-!
# The tasks of a connection and its clock

A connection runs three tasks beside each other. One sends a ping every thirty seconds and closes the
connection when nothing was received for five minutes, one waits for the connection to be knocked off,
one receives. The first to end ends the connection. Between two steps of a task the others may do
anything, and time passes.
-/

namespace Sandcat

inductive ConnectionState where
  | new | authenticating | active | idle | closing | closed
  deriving DecidableEq, Repr

/-- `Duration::from_secs`, in nanoseconds. -/
def fromSecs (secs : Nat) : Nat := secs * 1000000000

/-- `HEART_BEAT_INTERVAL`. -/
def heartBeatInterval : Nat := fromSecs 30

/-- `MAX_IDLE_TIME`. -/
def maxIdleTime : Nat := fromSecs 300

/-- `KNOCK_OFF_CODE`. -/
def knockOffCode : Nat := 4001

/-- `MESSAGE_TOO_LARGE_CODE`. -/
def messageTooLargeCode : Nat := 4003

/-- `INVALID_MESSAGE_FORMAT_CODE`. -/
def invalidMessageFormatCode : Nat := 4005

/-- `IDLE_TIMEOUT_CODE`. -/
def idleTimeoutCode : Nat := 4006

/-- What the tasks send to the client. -/
inductive Outgoing where
  | ping | pong
  | close (code : Nat)
  deriving DecidableEq, Repr

/-- Where the ping task stands, and since when: at the head of its loop, with the clock read, with a
silence found, sending the close frame, sending a ping, asleep, at its end. -/
inductive PingTask where
  | checking (since : Nat)
  | comparing (now : Nat)
  | marking (since : Nat)
  | closing (since : Nat)
  | pinging (since : Nat)
  | sleeping (since : Nat)
  | ended (since : Nat)
  deriving DecidableEq, Repr

/-- When the ping task came where it stands. -/
def PingTask.since : PingTask → Nat
  | .checking since | .comparing since | .marking since | .closing since | .pinging since
  | .sleeping since | .ended since => since

/-- Where the watch task stands: waiting, with its sender dropped, sending the close frame, at its end. -/
inductive WatchTask where
  | waiting | dropped | closing | ended
  deriving DecidableEq, Repr

/-- Where the receive task stands: waiting, with a frame taken from the socket, with the time of the
frame kept, at work on the frame, at its end. -/
inductive ReceiveTask where
  | waiting
  | received (frame : Frame)
  | stamped (frame : Frame)
  | handling (frame : Frame)
  | ended
  deriving DecidableEq

/-- The tasks of a connection with what they share, the clock, and what has gone through them: the
frames sent, the frames received and the messages handed to the manager, each in order. -/
structure ConnectionTasks where
  now : Nat
  lastActivity : Nat
  state : ConnectionState
  pingTask : PingTask
  watchTask : WatchTask
  receiveTask : ReceiveTask
  reason : Option TaskExitReason
  pinged : Nat
  sent : List Outgoing
  delivered : List Frame
  handed : List Msg

inductive TaskName where
  | ping | watch | receive
  deriving DecidableEq, Repr

/-- The clock, and the steps of the tasks. The ends of `send` and `broadcast` carry whether they
succeeded; `arrive` carries what the socket yields, nothing when it is closed or broken. -/
inductive TaskStep where
  | tick (nanos : Nat)
  | look
  | compare
  | mark
  | pingSent (ok : Bool)
  | wake
  | drop
  | markClosing
  | knockedOff (ok : Bool)
  | arrive (frame : Option Frame)
  | stamp
  | reset
  | handle (ok : Bool)
  | wait (task : TaskName)

namespace WsServer

/-- The close frame that answers a frame: its code. -/
def refusal (lib : Libraries) : Frame → Option Nat
  | .text text =>
    if maxMessageSize < text.utf8ByteSize then some messageTooLargeCode
    else if (lib.fromStr text).isSome then none
    else some invalidMessageFormatCode
  | .binary b =>
    if maxMessageSize < b.length then some messageTooLargeCode
    else if (lib.decodeFromSlice b).isSome then none
    else some invalidMessageFormatCode
  | .ping | .pong | .close => none

/-- What the handling of a frame sends to the client. -/
def answer (lib : Libraries) (frame : Frame) : Option Outgoing :=
  match frame with
  | .ping => some .pong
  | frame => (refusal lib frame).map .close

end WsServer

namespace ConnectionTasks

/-- `ConnectionTasks::new`. -/
def new (now : Nat) : ConnectionTasks :=
  { now, lastActivity := now, state := .active, pingTask := .checking now, watchTask := .waiting,
    receiveTask := .waiting, reason := none, pinged := now, sent := [], delivered := [],
    handed := [] }

/-- What was sent, with one more frame if the sending succeeded. -/
def send (ok : Bool) (frame : Outgoing) (s : ConnectionTasks) : ConnectionTasks :=
  if ok then { s with sent := s.sent ++ [frame] } else s

def reply (lib : Libraries) (ok : Bool) (frame : Frame) (s : ConnectionTasks) : ConnectionTasks :=
  match WsServer.answer lib frame with
  | some answer => s.send ok answer
  | none => s

/-- The branches of `wait`. -/
def exitReason (s : ConnectionTasks) : TaskName → Option TaskExitReason
  | .ping =>
    match s.pingTask with
    | .ended _ => some (if s.state = .idle then .idleTimeout else .pingFailed)
    | _ => none
  | .watch => if s.watchTask = .ended then some .knockOff else none
  | .receive => if s.receiveTask = .ended then some .clientDisconnected else none

/-- A step. The tasks may go on for a while after `wait` has returned, until the abort reaches them. -/
def step (lib : Libraries) (s : ConnectionTasks) : TaskStep → ConnectionTasks
  | .tick nanos => { s with now := s.now + nanos }
  | .look =>
    match s.pingTask with
    | .checking _ => { s with pingTask := .comparing s.now }
    | _ => s
  | .compare =>
    match s.pingTask with
    | .comparing now =>
      if maxIdleTime < now - s.lastActivity then { s with pingTask := .marking s.now }
      else { s with pingTask := .pinging s.now }
    | _ => s
  | .mark =>
    match s.pingTask with
    | .marking _ => { s with state := .idle, pingTask := .closing s.now }
    | _ => s
  | .pingSent ok =>
    match s.pingTask with
    | .closing _ => { s.send ok (.close idleTimeoutCode) with pingTask := .ended s.now }
    | .pinging _ =>
      if ok then { s.send ok .ping with pingTask := .sleeping s.now, pinged := s.now }
      else { s with pingTask := .ended s.now }
    | _ => s
  | .wake =>
    match s.pingTask with
    | .sleeping since =>
      if since + heartBeatInterval ≤ s.now then { s with pingTask := .checking s.now } else s
    | _ => s
  | .drop => if s.watchTask = .waiting then { s with watchTask := .dropped } else s
  | .markClosing =>
    if s.watchTask = .dropped then { s with state := .closing, watchTask := .closing } else s
  | .knockedOff ok =>
    if s.watchTask = .closing then { s.send ok (.close knockOffCode) with watchTask := .ended } else s
  | .arrive frame =>
    match s.receiveTask, frame with
    | .waiting, some frame =>
      { s with receiveTask := .received frame, delivered := s.delivered ++ [frame] }
    | .waiting, none => { s with receiveTask := .ended }
    | _, _ => s
  | .stamp =>
    match s.receiveTask with
    | .received frame => { s with lastActivity := s.now, receiveTask := .stamped frame }
    | _ => s
  | .reset =>
    match s.receiveTask with
    | .stamped frame =>
      { s with
        state := if s.state = .idle then .active else s.state
        receiveTask := .handling frame }
    | _ => s
  | .handle ok =>
    match s.receiveTask with
    | .handling frame =>
      let (msg, again) := WsServer.receive lib ok frame
      let s := s.reply lib ok frame
      { s with
        handed := s.handed ++ msg.toList
        receiveTask := if again then .waiting else .ended }
    | _ => s
  | .wait task =>
    match s.reason, s.exitReason task with
    | none, some reason => { s with reason := some reason }
    | _, _ => s

section

variable {lib : Libraries} {s t : ConnectionTasks} {act : TaskStep}

/-- What a step does to the ping task. The other tasks leave it alone, and a reason that says that the
connection was idle is given in the idle state. -/
inductive PingStep (s t : ConnectionTasks) : Prop where
  | kept (task : t.pingTask = s.pingTask) (pinged : t.pinged = s.pinged) (now : s.now ≤ t.now)
      (activity : t.lastActivity = s.lastActivity ∨ t.lastActivity = s.now)
      (state : t.state = .idle → s.state = .idle)
      (sent : .close idleTimeoutCode ∈ t.sent → .close idleTimeoutCode ∈ s.sent)
      (reason : t.reason = s.reason ∨ s.reason = none ∧
        ∃ reason, t.reason = some reason ∧ (reason = .idleTimeout → s.state = .idle))
  | looked {since : Nat} (task : s.pingTask = .checking since)
      (eq : t = { s with pingTask := .comparing s.now })
  | found {now : Nat} (task : s.pingTask = .comparing now) (idle : maxIdleTime < now - s.lastActivity)
      (eq : t = { s with pingTask := .marking s.now })
  | probed {now : Nat} (task : s.pingTask = .comparing now) (busy : now - s.lastActivity ≤ maxIdleTime)
      (eq : t = { s with pingTask := .pinging s.now })
  | marked {since : Nat} (task : s.pingTask = .marking since)
      (eq : t = { s with state := .idle, pingTask := .closing s.now })
  | closed {since : Nat} (task : s.pingTask = .closing since) (ok : Bool)
      (eq : t = { s.send ok (.close idleTimeoutCode) with pingTask := .ended s.now })
  | pinged {since : Nat} (task : s.pingTask = .pinging since)
      (eq : t = { s.send true .ping with pingTask := .sleeping s.now, pinged := s.now })
  | failed {since : Nat} (task : s.pingTask = .pinging since)
      (eq : t = { s with pingTask := .ended s.now })
  | woke {since : Nat} (task : s.pingTask = .sleeping since) (due : since + heartBeatInterval ≤ s.now)
      (eq : t = { s with pingTask := .checking s.now })

theorem PingStep.refl (s : ConnectionTasks) : PingStep s s :=
  .kept rfl rfl (Nat.le_refl _) (.inl rfl) id id (.inl rfl)

@[simp] theorem lastActivity_send (ok : Bool) (frame : Outgoing) (s : ConnectionTasks) :
    (s.send ok frame).lastActivity = s.lastActivity := by
  cases ok <;> rfl

@[simp] theorem now_send (ok : Bool) (frame : Outgoing) (s : ConnectionTasks) :
    (s.send ok frame).now = s.now := by
  cases ok <;> rfl

@[simp] theorem handed_send (ok : Bool) (frame : Outgoing) (s : ConnectionTasks) :
    (s.send ok frame).handed = s.handed := by
  cases ok <;> rfl

@[simp] theorem delivered_send (ok : Bool) (frame : Outgoing) (s : ConnectionTasks) :
    (s.send ok frame).delivered = s.delivered := by
  cases ok <;> rfl

@[simp] theorem receiveTask_send (ok : Bool) (frame : Outgoing) (s : ConnectionTasks) :
    (s.send ok frame).receiveTask = s.receiveTask := by
  cases ok <;> rfl

@[simp] theorem handed_reply (ok : Bool) (frame : Frame) (s : ConnectionTasks) :
    (s.reply lib ok frame).handed = s.handed := by
  rw [reply]
  split
  · exact handed_send ..
  · rfl

@[simp] theorem delivered_reply (ok : Bool) (frame : Frame) (s : ConnectionTasks) :
    (s.reply lib ok frame).delivered = s.delivered := by
  rw [reply]
  split
  · exact delivered_send ..
  · rfl

@[simp] theorem reason_send (ok : Bool) (frame : Outgoing) (s : ConnectionTasks) :
    (s.send ok frame).reason = s.reason := by
  cases ok <;> rfl

theorem mem_sent_send {ok : Bool} {x frame : Outgoing} (h : x ∈ (s.send ok frame).sent) :
    x ∈ s.sent ∨ x = frame := by
  cases ok with
  | false => exact .inl h
  | true =>
    simp only [send, if_true, List.mem_append, List.mem_singleton] at h
    exact h

/-- No answer to a frame has the code of the idle timeout. -/
theorem answer_ne_idleTimeout (lib : Libraries) (frame : Frame) :
    WsServer.answer lib frame ≠ some (.close idleTimeoutCode) := by
  cases frame with
  | text text =>
    simp only [WsServer.answer, WsServer.refusal]
    split
    · decide
    · split <;> decide
  | binary b =>
    simp only [WsServer.answer, WsServer.refusal]
    split
    · decide
    · split <;> decide
  | ping => simp [WsServer.answer]
  | pong => simp [WsServer.answer, WsServer.refusal]
  | close => simp [WsServer.answer, WsServer.refusal]

theorem exitReason_idleTimeout {task : TaskName} (h : s.exitReason task = some .idleTimeout) :
    s.state = .idle := by
  cases task with
  | ping =>
    simp only [exitReason] at h
    split at h
    · split at h
      · assumption
      · cases h
    · cases h
  | watch =>
    simp only [exitReason] at h
    split at h <;> cases h
  | receive =>
    simp only [exitReason] at h
    split at h <;> cases h

theorem pingStep (lib : Libraries) (s : ConnectionTasks) (act : TaskStep) :
    PingStep s (s.step lib act) := by
  cases act with
  | tick nanos => exact .kept rfl rfl (Nat.le_add_right ..) (.inl rfl) id id (.inl rfl)
  | look =>
    simp only [step]
    split
    · exact .looked ‹_› rfl
    · exact .refl s
  | compare =>
    simp only [step]
    split
    · split
      · exact .found ‹_› ‹_› rfl
      · exact .probed ‹_› (by omega) rfl
    · exact .refl s
  | mark =>
    simp only [step]
    split
    · exact .marked ‹_› rfl
    · exact .refl s
  | pingSent ok =>
    simp only [step]
    split
    · exact .closed ‹_› ok rfl
    · cases ok with
      | false => exact .failed ‹_› rfl
      | true => exact .pinged ‹_› rfl
    · exact .refl s
  | wake =>
    simp only [step]
    split
    · split
      · exact .woke ‹_› ‹_› rfl
      · exact .refl s
    · exact .refl s
  | drop =>
    simp only [step]
    split
    · exact .kept rfl rfl (Nat.le_refl _) (.inl rfl) id id (.inl rfl)
    · exact .refl s
  | markClosing =>
    simp only [step]
    split
    · exact .kept rfl rfl (Nat.le_refl _) (.inl rfl) (fun h => nomatch h) id (.inl rfl)
    · exact .refl s
  | knockedOff ok =>
    simp only [step]
    split
    · cases ok with
      | false => exact .kept rfl rfl (Nat.le_refl _) (.inl rfl) id id (.inl rfl)
      | true =>
        refine .kept rfl rfl (Nat.le_refl _) (.inl rfl) id (fun h => ?_) (.inl rfl)
        obtain h | h := mem_sent_send h
        · exact h
        · cases h
    · exact .refl s
  | arrive frame =>
    simp only [step]
    split
    · exact .kept rfl rfl (Nat.le_refl _) (.inl rfl) id id (.inl rfl)
    · exact .kept rfl rfl (Nat.le_refl _) (.inl rfl) id id (.inl rfl)
    · exact .refl s
  | stamp =>
    simp only [step]
    split
    · exact .kept rfl rfl (Nat.le_refl _) (.inr rfl) id id (.inl rfl)
    · exact .refl s
  | reset =>
    simp only [step]
    split
    · refine .kept rfl rfl (Nat.le_refl _) (.inl rfl) (fun h => ?_) id (.inl rfl)
      dsimp only at h
      split at h
      · cases h
      · exact h
    · exact .refl s
  | handle ok =>
    simp only [step]
    split
    · rename_i frame _
      simp only [reply]
      cases ha : WsServer.answer lib frame with
      | none => exact .kept rfl rfl (Nat.le_refl _) (.inl rfl) id id (.inl rfl)
      | some answer =>
        have hne := ha ▸ answer_ne_idleTimeout lib frame
        cases ok with
        | false => exact .kept rfl rfl (Nat.le_refl _) (.inl rfl) id id (.inl rfl)
        | true =>
          refine .kept rfl rfl (Nat.le_refl _) (.inl rfl) id (fun h => ?_) (.inl rfl)
          have hmem : .close idleTimeoutCode ∈ (s.send true answer).sent := h
          obtain h | h := mem_sent_send hmem
          · exact h
          · exact absurd (congrArg some h).symm hne
    · exact .refl s
  | wait task =>
    simp only [step]
    split
    · rename_i reason hnone hreason
      refine .kept rfl rfl (Nat.le_refl _) (.inl rfl) id id (.inr ⟨hnone, reason, rfl, ?_⟩)
      rintro rfl
      exact exitReason_idleTimeout hreason
    · exact .refl s

/-- Whenever the ping task compares the clock it has read, a frame was received in the last five
minutes. -/
def Lively (s : ConnectionTasks) : Prop :=
  ∀ now, s.pingTask = .comparing now → now ≤ s.lastActivity + maxIdleTime

/-- The clock that the ping task has read is not ahead. -/
def Behind (s : ConnectionTasks) : Prop := ∀ now, s.pingTask = .comparing now → now ≤ s.now

theorem Behind.pingStep (h : s.Behind) (hstep : PingStep s t) : t.Behind := by
  intro now ht
  cases hstep with
  | kept task _ hnow => exact Nat.le_trans (h now (task ▸ ht)) hnow
  | looked _ eq =>
    subst eq
    cases ht
    exact Nat.le_refl _
  | found _ _ eq | probed _ _ eq | marked _ eq | closed _ _ eq | pinged _ eq | failed _ eq
  | woke _ _ eq =>
    subst eq
    cases ht

/-- Nothing has been done about an idle connection. -/
structure Awake (s : ConnectionTasks) : Prop where
  task : ∀ since, s.pingTask ≠ .marking since ∧ s.pingTask ≠ .closing since
  state : s.state ≠ .idle
  sent : .close idleTimeoutCode ∉ s.sent
  reason : s.reason ≠ some .idleTimeout

theorem awake_new (now : Nat) : (new now).Awake := by
  constructor <;> simp [ConnectionTasks.new]

theorem Awake.pingStep (hs : s.Lively) (h : s.Awake) (hstep : PingStep s t) : t.Awake := by
  cases hstep with
  | kept task _ _ _ state sent reason =>
    refine ⟨task ▸ h.task, fun he => h.state (state he), fun he => h.sent (sent he), ?_⟩
    intro he
    obtain hsame | ⟨-, reason, hreason, hidle⟩ := reason
    · exact h.reason (hsame ▸ he)
    · rw [hreason] at he
      exact h.state (hidle (Option.some.inj he))
  | looked _ eq => exact eq ▸ ⟨fun _ => ⟨nofun, nofun⟩, h.state, h.sent, h.reason⟩
  | found task idle =>
    have := hs _ task
    omega
  | probed _ _ eq => exact eq ▸ ⟨fun _ => ⟨nofun, nofun⟩, h.state, h.sent, h.reason⟩
  | marked task => exact absurd task (h.task _).1
  | closed task => exact absurd task (h.task _).2
  | pinged _ eq =>
    refine eq ▸ ⟨fun _ => ⟨nofun, nofun⟩, h.state, fun he => ?_, h.reason⟩
    obtain he | he := mem_sent_send he
    · exact h.sent he
    · cases he
  | failed _ eq => exact eq ▸ ⟨fun _ => ⟨nofun, nofun⟩, h.state, h.sent, h.reason⟩
  | woke _ _ eq => exact eq ▸ ⟨fun _ => ⟨nofun, nofun⟩, h.state, h.sent, h.reason⟩

/-- The ping task and the task that waits for it get their turns within `latency`, and a frame is sent
or refused within `sending`. -/
def Prompt (latency sending : Nat) (s : ConnectionTasks) : Prop :=
  match s.pingTask with
  | .checking since | .comparing since | .marking since => s.now ≤ since + latency
  | .closing since | .pinging since => s.now ≤ since + sending
  | .sleeping since => s.now ≤ since + heartBeatInterval + latency
  | .ended since => s.reason = none → s.now ≤ since + latency

/-- A frame is received within `answering` after a ping was sent. -/
def Answered (answering : Nat) (s : ConnectionTasks) : Prop :=
  s.pinged + answering < s.now → s.pinged ≤ s.lastActivity

variable {latency sending answering : Nat}

/-- How much later than five minutes after the last frame the ping task can come where it stands. -/
def slack (latency sending : Nat) : PingTask → Nat
  | .checking _ => heartBeatInterval + 2 * latency + sending
  | .comparing _ => heartBeatInterval + 3 * latency + sending
  | .marking _ => heartBeatInterval + 4 * latency + sending
  | .closing _ => heartBeatInterval + 5 * latency + sending
  | .pinging _ => latency
  | .sleeping _ => latency + sending
  | .ended _ => heartBeatInterval + 5 * latency + 2 * sending

/-- The ping task is where it can be in time. -/
structure OnTime (latency sending : Nat) (s : ConnectionTasks) : Prop where
  activity : s.lastActivity ≤ s.now
  task : s.reason = none →
    s.pingTask.since ≤ s.lastActivity + maxIdleTime + slack latency sending s.pingTask

theorem onTime_new (now : Nat) : (new now).OnTime latency sending :=
  ⟨Nat.le_refl _, fun _ => by simp only [ConnectionTasks.new, PingTask.since]; omega⟩

/-- How long the ping task stays where it stands. -/
def stay (latency sending : Nat) : PingTask → Nat
  | .checking _ | .comparing _ | .marking _ | .ended _ => latency
  | .closing _ | .pinging _ => sending
  | .sleeping _ => heartBeatInterval + latency

theorem Prompt.now_le (hs : s.Prompt latency sending) (hnone : s.reason = none) :
    s.now ≤ s.pingTask.since + stay latency sending s.pingTask := by
  unfold Prompt at hs
  cases hp : s.pingTask with
  | checking since | comparing since | marking since | closing since | pinging since =>
    simpa only [hp, PingTask.since, stay] using hs
  | sleeping since =>
    simp only [hp] at hs
    simp only [PingTask.since, stay]
    omega
  | ended since =>
    simp only [hp] at hs
    exact hs hnone

theorem OnTime.now_le (hs : s.Prompt latency sending) (h : s.OnTime latency sending) (hnone : s.reason = none) :
    s.now ≤ s.lastActivity + maxIdleTime +
      (slack latency sending s.pingTask + stay latency sending s.pingTask) := by
  have hnow := hs.now_le hnone
  have htask := h.task hnone
  omega

/-- Each place of the ping task has as much more slack than the one before it as the task stays there;
only a probe finds the last frame so young that it starts afresh. -/
theorem OnTime.pingStep (hs : s.Prompt latency sending) (h : s.OnTime latency sending)
    (hstep : PingStep s t) : t.OnTime latency sending := by
  have hactivity := h.activity
  cases hstep with
  | kept task _ now activity _ _ reason =>
    refine ⟨by omega, fun hnone => ?_⟩
    have hnone : s.reason = none := by
      obtain hsame | ⟨hs, -⟩ := reason
      · exact hsame ▸ hnone
      · exact hs
    have := h.task hnone
    rw [task]
    omega
  | probed task busy eq =>
    subst eq
    refine ⟨hactivity, fun hnone => ?_⟩
    simp only [Prompt, task] at hs
    simp only [PingTask.since, slack]
    omega
  | looked task eq | found task _ eq | marked task eq | pinged task eq | failed task eq
  | woke task _ eq =>
    subst eq
    refine ⟨hactivity, fun hnone => ?_⟩
    have hnow := h.now_le hs hnone
    simp only [task, slack, stay] at hnow
    simp only [PingTask.since, slack, lastActivity_send]
    omega
  | closed task ok eq =>
    subst eq
    refine ⟨?_, fun hnone => ?_⟩
    · simpa only [lastActivity_send, now_send] using hactivity
    · have hnow := h.now_le hs (by simpa only [reason_send] using hnone)
      simp only [task, slack, stay] at hnow
      simp only [PingTask.since, slack, lastActivity_send]
      omega

/-- The ping task reads the clock when its sleep after the last ping is over. -/
structure Paced (latency : Nat) (s : ConnectionTasks) : Prop where
  activity : s.lastActivity ≤ s.now
  checking : ∀ since, s.pingTask = .checking since → since ≤ s.now ∧
    since ≤ s.pinged + heartBeatInterval + latency ∧
    (s.pinged + heartBeatInterval ≤ since ∨ s.pinged ≤ s.lastActivity)
  comparing : ∀ now, s.pingTask = .comparing now → now ≤ s.now ∧
    now ≤ s.pinged + heartBeatInterval + 2 * latency ∧
    (s.pinged + heartBeatInterval ≤ now ∨ s.pinged ≤ s.lastActivity)
  sleeping : ∀ since, s.pingTask = .sleeping since → since = s.pinged

theorem paced_new (now : Nat) : (new now).Paced latency := by
  refine ⟨Nat.le_refl _, fun since h => ?_, nofun, nofun⟩
  cases h
  exact ⟨Nat.le_refl _, Nat.le_trans (Nat.le_add_right ..) (Nat.le_add_right ..), .inr (Nat.le_refl _)⟩

theorem Paced.pingStep (hs : s.Prompt latency sending) (h : s.Paced latency) (hstep : PingStep s t) :
    t.Paced latency := by
  have hactivity := h.activity
  cases hstep with
  | kept task pinged now activity =>
    refine ⟨by omega, fun since ht => ?_, fun now ht => ?_, fun since ht => ?_⟩
    · have := h.checking since (task ▸ ht)
      omega
    · have := h.comparing now (task ▸ ht)
      omega
    · exact pinged ▸ h.sleeping since (task ▸ ht)
  | looked task eq =>
    subst eq
    refine ⟨hactivity, nofun, fun now ht => ?_, nofun⟩
    cases ht
    have := h.checking _ task
    simp only [Prompt, task] at hs
    dsimp only
    omega
  | found _ _ eq => exact eq ▸ ⟨hactivity, nofun, nofun, nofun⟩
  | probed _ _ eq => exact eq ▸ ⟨hactivity, nofun, nofun, nofun⟩
  | marked _ eq => exact eq ▸ ⟨hactivity, nofun, nofun, nofun⟩
  | closed _ _ eq =>
    subst eq
    refine ⟨?_, nofun, nofun, nofun⟩
    simpa only [lastActivity_send, now_send] using hactivity
  | pinged _ eq =>
    subst eq
    refine ⟨hactivity, nofun, nofun, fun since ht => ?_⟩
    cases ht
    rfl
  | failed _ eq => exact eq ▸ ⟨hactivity, nofun, nofun, nofun⟩
  | woke task due eq =>
    subst eq
    refine ⟨hactivity, fun since ht => ?_, nofun, nofun⟩
    cases ht
    have := h.sleeping _ task
    simp only [Prompt, task] at hs
    dsimp only
    omega

/-- A client that answers each ping before the next one keeps the connection lively. -/
theorem Paced.lively (h : s.Paced latency) (hs : s.Answered answering)
    (hanswering : answering < heartBeatInterval)
    (hlatency : heartBeatInterval + 2 * latency ≤ maxIdleTime) : s.Lively := by
  intro now htask
  obtain ⟨hnow, hlate, hpinged⟩ := h.comparing now htask
  have : s.pinged ≤ s.lastActivity := by
    obtain hpinged | hpinged := hpinged
    · exact hs (by omega)
    · exact hpinged
  omega

theorem awake_of_lively {now : Nat} {acts : List TaskStep}
    (h : Runs.Along (step lib) Lively (new now) acts) : (Runs.run (step lib) (new now) acts).Awake :=
  h.invariant (awake_new now) fun s act hs _ hawake => hawake.pingStep hs (pingStep lib s act)

/-- What a frame says to the manager, if the manager takes it. -/
def accepted (lib : Libraries) (frame : Frame) : Option Msg := (WsServer.receive lib true frame).1

/-- A turn that does not end the loop has handed on what the frame says, and the frame is no close. -/
theorem receive_again {ok : Bool} {frame : Frame} (h : (WsServer.receive lib ok frame).2 = true) :
    (WsServer.receive lib ok frame).1 = accepted lib frame ∧ frame ≠ .close := by
  cases ok with
  | true =>
    refine ⟨rfl, ?_⟩
    rintro rfl
    cases h
  | false =>
    cases frame with
    | text text =>
      refine ⟨?_, by simp⟩
      by_cases hlarge : WsServer.maxMessageSize < text.utf8ByteSize
      · simp [accepted, WsServer.receive, hlarge]
      · cases hm : lib.fromStr text with
        | none => simp [accepted, WsServer.receive, hm]
        | some m => simp [WsServer.receive, hlarge, hm] at h
    | binary b =>
      refine ⟨?_, by simp⟩
      by_cases hlarge : WsServer.maxMessageSize < b.length
      · simp [accepted, WsServer.receive, hlarge]
      · cases hm : lib.decodeFromSlice b with
        | none => simp [accepted, WsServer.receive, hm]
        | some m => simp [WsServer.receive, hlarge, hm] at h
    | ping => cases h
    | pong => exact ⟨rfl, by simp⟩
    | close => cases h

/-- The turn that ends the loop hands nothing on. -/
theorem receive_last {ok : Bool} {frame : Frame} (h : (WsServer.receive lib ok frame).2 = false) :
    (WsServer.receive lib ok frame).1 = none := by
  cases frame with
  | text text =>
    by_cases hlarge : WsServer.maxMessageSize < text.utf8ByteSize
    · simp [WsServer.receive, hlarge]
    · cases hm : lib.fromStr text with
      | none => simp [WsServer.receive, hm]
      | some m => cases ok <;> simp [WsServer.receive, hlarge, hm] at h ⊢
  | binary b =>
    by_cases hlarge : WsServer.maxMessageSize < b.length
    · simp [WsServer.receive, hlarge]
    · cases hm : lib.decodeFromSlice b with
      | none => simp [WsServer.receive, hm]
      | some m => cases ok <;> simp [WsServer.receive, hlarge, hm] at h ⊢
  | ping => rfl
  | pong => rfl
  | close => rfl

/-- The frames whose turn is over are handed on; at most one frame is not. -/
structure Relayed (lib : Libraries) (finished : List Frame) (s : ConnectionTasks) : Prop where
  handed : s.handed = finished.filterMap (accepted lib)
  no_close : .close ∉ finished
  pending : match s.receiveTask with
    | .waiting => s.delivered = finished
    | .received frame | .stamped frame | .handling frame => s.delivered = finished ++ [frame]
    | .ended => s.delivered = finished ∨ ∃ frame, s.delivered = finished ++ [frame]

/-- What only the receive task does. -/
theorem Relayed.congr {finished : List Frame} (h : s.Relayed lib finished) (hhanded : t.handed = s.handed)
    (hdelivered : t.delivered = s.delivered) (htask : t.receiveTask = s.receiveTask) :
    t.Relayed lib finished :=
  ⟨hhanded ▸ h.handed, h.no_close, htask ▸ hdelivered ▸ h.pending⟩

theorem relayed_new (now : Nat) : (new now).Relayed lib [] := ⟨rfl, nofun, rfl⟩

theorem Relayed.handle {finished : List Frame} {frame : Frame} {ok : Bool} (h : s.Relayed lib finished)
    (htask : s.receiveTask = .handling frame) : ∃ finished, (s.step lib (.handle ok)).Relayed lib finished := by
  have hpending := h.pending
  simp only [htask] at hpending
  simp only [ConnectionTasks.step, htask]
  cases hagain : (WsServer.receive lib ok frame).2 with
  | true =>
    obtain ⟨hmsg, hclose⟩ := receive_again hagain
    refine ⟨finished ++ [frame], ?_, ?_, ?_⟩
    · rw [handed_reply, h.handed, List.filterMap_append, hmsg]
      cases ha : accepted lib frame <;> simp [ha]
    · simp [h.no_close, Ne.symm hclose]
    · simpa using hpending
  | false =>
    refine ⟨finished, ?_, h.no_close, ?_⟩
    · rw [handed_reply, h.handed, receive_last hagain]
      simp
    · simpa using Or.inr ⟨frame, hpending⟩

theorem Relayed.step {finished : List Frame} (h : s.Relayed lib finished) (act : TaskStep) :
    ∃ finished, (s.step lib act).Relayed lib finished := by
  cases act with
  | arrive frame =>
    simp only [ConnectionTasks.step]
    have hpending := h.pending
    split
    · rename_i frame htask
      simp only [htask] at hpending
      exact ⟨finished, h.handed, h.no_close, congrArg (· ++ [frame]) hpending⟩
    · rename_i htask
      simp only [htask] at hpending
      exact ⟨finished, h.handed, h.no_close, .inl hpending⟩
    · exact ⟨finished, h⟩
  | stamp =>
    simp only [ConnectionTasks.step]
    split
    · rename_i frame htask
      have hpending := h.pending
      simp only [htask] at hpending
      exact ⟨finished, h.handed, h.no_close, hpending⟩
    · exact ⟨finished, h⟩
  | reset =>
    simp only [ConnectionTasks.step]
    split
    · rename_i frame htask
      have hpending := h.pending
      simp only [htask] at hpending
      exact ⟨finished, h.handed, h.no_close, hpending⟩
    · exact ⟨finished, h⟩
  | handle ok =>
    cases htask : s.receiveTask with
    | handling frame => exact h.handle htask
    | _ =>
      simp only [ConnectionTasks.step, htask]
      exact ⟨finished, h⟩
  | tick nanos => exact ⟨finished, h.congr rfl rfl rfl⟩
  | _ =>
    refine ⟨finished, ?_⟩
    simp only [ConnectionTasks.step]
    repeat' split
    all_goals exact h.congr (by simp) (by simp) (by simp)

end

end ConnectionTasks

open ConnectionTasks

variable {lib : Libraries}

/-- A connection is closed as idle only if its ping task has found that no frame was received for five
minutes, whatever the order of the tasks. -/
theorem silent_of_idleTimeout {start : Nat} {acts : List TaskStep}
    (h : (Runs.run (step lib) (new start) acts).reason = some .idleTimeout ∨
      .close idleTimeoutCode ∈ (Runs.run (step lib) (new start) acts).sent) :
    ¬ Runs.Along (step lib) (fun s => s.now ≤ s.lastActivity + maxIdleTime) (new start) acts := by
  intro hlively
  have hbehind := hlively.strengthen (fun now hnow => nomatch hnow)
    fun s act _ _ hbehind => Behind.pingStep hbehind (pingStep lib s act)
  have hawake := awake_of_lively <| hbehind.mono
    fun s hs now hnow => Nat.le_trans (hs.2 now hnow) hs.1
  obtain h | h := h
  · exact hawake.reason h
  · exact hawake.sent h

/-- Libraries that accept nothing. -/
def refusing : Libraries := ⟨fun _ _ => .error .other, fun _ => none, fun _ => none⟩

/-- The ping task finds its client silent for more than five minutes. -/
theorem silent_of_idleTimeout_silence :
    ¬ Runs.Along (step refusing) (fun s => s.now ≤ s.lastActivity + maxIdleTime) (new 0)
      [.tick (fromSecs 301), .look, .compare, .mark, .pingSent true] :=
  silent_of_idleTimeout (.inr (by decide))

/-- A connection whose client answers every ping before the next is not closed as idle. -/
theorem not_idle_of_answered (latency sending answering : Nat) {start : Nat} {acts : List TaskStep}
    (hanswering : answering < heartBeatInterval)
    (hlatency : heartBeatInterval + 2 * latency ≤ maxIdleTime)
    (h : Runs.Along (step lib) (fun s => s.Prompt latency sending ∧ s.Answered answering)
      (new start) acts) :
    (Runs.run (step lib) (new start) acts).reason ≠ some .idleTimeout ∧
      .close idleTimeoutCode ∉ (Runs.run (step lib) (new start) acts).sent := by
  have hpaced := h.strengthen (paced_new start)
    fun s act hs _ hpaced => hpaced.pingStep hs.1 (pingStep lib s act)
  have hawake := awake_of_lively <| hpaced.mono
    fun s hs => hs.2.lively hs.1.2 hanswering hlatency
  exact ⟨hawake.reason, hawake.sent⟩

/-- A ping is answered, and the next one is due. -/
theorem not_idle_of_answered_pong :
    (Runs.run (step refusing) (new 0) [.look, .compare, .pingSent true, .tick (fromSecs 1),
      .arrive (some .pong), .stamp, .reset, .handle true, .tick (fromSecs 29), .wake, .look,
      .compare]).reason ≠ some .idleTimeout ∧
    .close idleTimeoutCode ∉ (Runs.run (step refusing) (new 0) [.look, .compare, .pingSent true,
      .tick (fromSecs 1), .arrive (some .pong), .stamp, .reset, .handle true, .tick (fromSecs 29),
      .wake, .look, .compare]).sent := by
  refine not_idle_of_answered 0 0 (fromSecs 2) (by decide) (by decide) ?_
  simp [Runs.Along, step, Prompt, Answered, new, send, fromSecs, heartBeatInterval, maxIdleTime, reply,
    WsServer.answer, WsServer.refusal, WsServer.receive]

/-- A connection that receives nothing has an exit reason soon after five minutes and the interval of
the pings. -/
theorem returned_of_silence (latency sending : Nat) {start : Nat} {acts : List TaskStep}
    (h : Runs.Along (step lib) (Prompt latency sending) (new start) acts)
    (hsilent : (Runs.run (step lib) (new start) acts).lastActivity + maxIdleTime + heartBeatInterval +
      6 * latency + 2 * sending < (Runs.run (step lib) (new start) acts).now) :
    (Runs.run (step lib) (new start) acts).reason ≠ none := by
  intro hnone
  have hdue := h.invariant (onTime_new start) fun s act hs _ hdue => hdue.pingStep hs (pingStep lib s act)
  have hnow := hdue.now_le h.last hnone
  -- the latest is the end of the task, with the close frame sent
  have hlatest : ∀ task : PingTask, slack latency sending task + stay latency sending task ≤
      heartBeatInterval + 6 * latency + 2 * sending := by
    intro task
    cases task <;> simp only [slack, stay] <;> omega
  have := hlatest (Runs.run (step lib) (new start) acts).pingTask
  omega

/-- A ping every thirty seconds, and no answer. -/
def unanswered : List TaskStep :=
  (List.replicate 11 [.look, .compare, .pingSent true, .tick (fromSecs 30), .wake]).flatten ++
    [.look, .compare, .mark, .pingSent true, .wait .ping, .tick 1]

theorem returned_of_silence_unanswered :
    (Runs.run (step refusing) (new 0) unanswered).reason ≠ none := by
  refine returned_of_silence 0 0 ?_ (by decide)
  simp [unanswered, List.replicate, Runs.Along, step, Prompt, new, send, fromSecs, heartBeatInterval,
    maxIdleTime, exitReason]

/-- What the manager is handed is what the frames say that were received, in their order and each once,
up to the one in work and to the first close or failure. -/
theorem handed_in_order (lib : Libraries) (start : Nat) (acts : List TaskStep) :
    ∃ finished rest, (Runs.run (step lib) (new start) acts).delivered = finished ++ rest ∧
      rest.length ≤ 1 ∧
      ((Runs.run (step lib) (new start) acts).receiveTask = .waiting → rest = []) ∧
      .close ∉ finished ∧
      (Runs.run (step lib) (new start) acts).handed = finished.filterMap (accepted lib) := by
  obtain ⟨finished, h⟩ : ∃ finished, (Runs.run (step lib) (new start) acts).Relayed lib finished :=
    Runs.invariant (I := fun s : ConnectionTasks => ∃ finished, s.Relayed lib finished) ⟨[], relayed_new start⟩
      fun s act ⟨_, hs⟩ => hs.step act
  have hpending := h.pending
  cases htask : (Runs.run (step lib) (new start) acts).receiveTask with
  | waiting =>
    rw [htask] at hpending
    exact ⟨finished, [], by simpa using hpending, Nat.zero_le _, fun _ => rfl, h.no_close, h.handed⟩
  | received frame | stamped frame | handling frame =>
    rw [htask] at hpending
    exact ⟨finished, [frame], hpending, Nat.le_refl _, nofun, h.no_close, h.handed⟩
  | ended =>
    rw [htask] at hpending
    obtain hpending | ⟨frame, hpending⟩ := hpending
    · exact ⟨finished, [], by simpa using hpending, Nat.zero_le _, nofun, h.no_close, h.handed⟩
    · exact ⟨finished, [frame], hpending, Nat.le_refl _, nofun, h.no_close, h.handed⟩

end Sandcat
