import Sandcat.Inbox
import Sandcat.Pusher

/-!
# The consumer of the message queue

`handleMsg` is the body of the consumer loop: it classifies a record, numbers it,
and hands it to the stores and to the gateways. A spawned task that fails reports
only a panic to the task that waits for it, and a task that has been spawned runs
to its end whatever becomes of the others.
-/

namespace Sandcat

open Remote

inductive MsgType2 where
  | single | group
  deriving DecidableEq, Repr

namespace Consumer

/-- `Error::internal` of a `JoinError`. -/
def joinError : Error := .mk .internalServer (some "task panicked")

/-- A spawned task that logs its own errors: the caller sees a panic or nothing. -/
def spawnLogged (task : M Unit) : M (Except Error Unit) := do
  match ← Prog.attempt task with
  | .error .panic => pure (.error joinError)
  | _ => pure (.ok ())

/-- A spawned task whose result the caller reads: the inner result, or a panic. -/
def spawn (task : M Unit) : M (Except Error (Except Error Unit)) := do
  match ← Prog.attempt task with
  | .error .panic => pure (.error joinError)
  | r => pure (.ok r)

/-- `?`. -/
def orRaise {α : Type} : Except Error α → M α
  | .ok a => pure a
  | .error e => Prog.raise e

/-- Message kind, whether to increase the receiver's sequence, whether to keep history. -/
def classifyMsgType : MsgType → MsgType2 × Bool × Bool
  | .singleMsg | .singleCallInviteNotAnswer | .singleCallInviteCancel | .hangup
  | .connectSingleCall | .rejectSingleCall | .friendApplyReq | .friendApplyResp
  | .friendDelete => (.single, true, true)
  | .groupMsg | .groupFile | .groupPoll | .groupAnnouncement => (.group, false, true)
  | .groupInvitation | .groupInviteNew | .groupMemberExit | .groupRemoveMember | .groupDismiss
  | .groupUpdate | .groupMute => (.group, false, false)
  | .groupDismissOrExitReceived | .groupInvitationReceived | .friendBlack | .singleCallInvite
  | .agreeSingleCall | .singleCallOffer | .candidate | .read | .msgRecResp | .notification
  | .service | .friendshipReceived => (.single, false, false)

def getSendToDbFlag : MsgType → Bool
  | .connectSingleCall | .agreeSingleCall | .candidate | .singleCallOffer
  | .singleCallInvite => false
  | _ => true

/-- A failure to save the members to the cache is logged. -/
def queryGroupMembersIdFromDb (groupId : GroupId) : M (List UserId) := do
  let membersId ← Db.queryGroupMembersId groupId
  let _ ← Prog.attempt (Cache.saveGroupMembersId groupId membersId)
  pure membersId

def getMembersId (groupId : GroupId) : M (List UserId) := do
  let list ← Cache.queryGroupMembersId groupId
  if list ≠ [] then pure list else queryGroupMembersIdFromDb groupId

def handleSendSeq (cfg : Config) (userId : UserId) : M Unit := do
  let sendSeq ← Cache.getSendSeq userId
  Prog.onlyIf (sendSeq.1 = sendSeq.2 - cfg.seqStep) (Prog.void (Db.saveMaxSeq cfg userId))

def increaseMessageSeq (cfg : Config) (userId : UserId) : M Int := do
  let (curSeq, _, updated) ← Cache.increaseSeq cfg userId
  Prog.onlyIf updated (Prog.void (Db.saveMaxSeq cfg userId))
  pure curSeq

def binCode : Error := .mk .binCode (some "UnexpectedEnd")

def handleMsgRead (cfg : Config) (msg : Msg) : M Unit :=
  match decodeMsgRead msg.content with
  | some data => MsgRecBox.msgRead cfg data.userId data.msgSeq
  | none => Prog.raise binCode

/-- What a group operation does to the cached members, after the numbering. -/
def updateCachedMembers (msg : Msg) : M Unit :=
  if msg.msgType = MsgType.groupDismiss.toI32 then Cache.delGroupMembers msg.receiverId
  else if msg.msgType = MsgType.groupMemberExit.toI32 then
    Cache.removeGroupMemberId msg.receiverId msg.senderId
  else if msg.msgType = MsgType.groupRemoveMember.toI32 then
    match decodeIds msg.content with
    | some data => Cache.removeGroupMemberBatch msg.groupId data
    | none => Prog.raise binCode
  else pure ()

def handleGroupSeq (cfg : Config) (msgType : MsgType2) (msg : Msg) : M (List GroupMemSeq) := do
  if msgType ≠ .group then pure []
  else
    let members ← getMembersId msg.receiverId
    let seq ← Cache.incrGroupSeq cfg (members.filter (· ≠ msg.senderId))
    updateCachedMembers msg
    pure seq

/-- The history is written when it is not wanted. -/
def handleMessage (cfg : Config) (message : Msg) (needToHistory : Bool) : M Unit := do
  let db ← (if !needToHistory then spawnLogged (Db.saveMessage message) else pure (.ok ()))
  let msgRecBox ← spawnLogged
    (if isReceived message.msgType then MsgRecBox.deleteMessage cfg message.serverId
     else MsgRecBox.saveMessage cfg message)
  orRaise db
  orRaise msgRecBox

def handleGroupMessage (cfg : Config) (message : Msg) (needToHistory : Bool)
    (members : List GroupMemSeq) : M Unit := do
  let needUpdate := (members.filter (·.needUpdate)).map (·.memId)
  let dbTask ← spawn do
    Prog.onlyIf (needUpdate ≠ []) (Db.saveMaxSeqBatch cfg needUpdate)
    Prog.onlyIf needToHistory (Db.saveMessage message)
  let msgRecBoxTask ← spawn (MsgRecBox.saveGroupMsg cfg message members)
  let dbResult ← orRaise dbTask
  let msgRecBoxResult ← orRaise msgRecBoxTask
  orRaise dbResult
  orRaise msgRecBoxResult

def sendToDb (cfg : Config) (msg : Msg) (msgType : MsgType2) (needToHistory : Bool)
    (members : List GroupMemSeq) : M Unit :=
  match msgType with
  | .single => handleMessage cfg msg needToHistory
  | .group => handleGroupMessage cfg msg needToHistory members

/-- The receiver's number, for the types that need one. -/
def numberReceiver (cfg : Config) (needIncreaseSeq : Bool) (msg : Msg) : M Msg :=
  if needIncreaseSeq then do
    let curSeq ← increaseMessageSeq cfg msg.receiverId
    pure { msg with seq := curSeq }
  else pure msg

/-- The numbering of `handle_msg`: the message and the recipients as the tasks get them. -/
def numberMsg (cfg : Config) (mt : MsgType) (msg : Msg) : M (Msg × List GroupMemSeq) := do
  let (msgType, needIncreaseSeq, _) := classifyMsgType mt
  handleSendSeq cfg msg.senderId
  let msg ← numberReceiver cfg needIncreaseSeq msg
  let members ← handleGroupSeq cfg msgType msg
  pure (msg, members)

/-- The pushing task of `handle_msg`. -/
def pushMsg (msgType : MsgType2) (msg : Msg) (members : List GroupMemSeq) : M Unit :=
  match msgType with
  | .single => Pusher.pushSingleMsg msg
  | .group => Pusher.pushGroupMsg msg members

/-- The two tasks of `handle_msg`, neither of which panics. The one of the database comes to its end before the
push begins; at a panic `try_join_all` returns with the other one still running. -/
def dispatch (cfg : Config) (mt : MsgType) (msg : Msg) (members : List GroupMemSeq) : M Unit := do
  let msgType := (classifyMsgType mt).1
  let needHistory := (classifyMsgType mt).2.2
  let toDb ← (if getSendToDbFlag mt then
      spawnLogged (sendToDb cfg msg msgType needHistory members)
    else pure (.ok ()))
  let toPusher ← spawnLogged (pushMsg msgType msg members)
  orRaise toDb
  orRaise toPusher

def handleMsg (cfg : Config) (payload : Payload) : M Unit :=
  match payload with
  | .malformed => Prog.raise (.mk .parseError (some "not a message"))
  | .json msg =>
    match MsgType.tryFrom msg.msgType with
    | none => Prog.raise (.mk .internalServer (some "unknown enumeration value"))
    | some mt =>
      if mt = .read then handleMsgRead cfg msg
      else do
        let (msg, members) ← numberMsg cfg mt msg
        dispatch cfg mt msg members

theorem handleMsg_typed (cfg : Config) {msg : Msg} {mt : MsgType}
    (ht : MsgType.tryFrom msg.msgType = some mt) (hread : mt ≠ .read) :
    handleMsg cfg (.json msg) = numberMsg cfg mt msg >>= fun p => dispatch cfg mt p.1 p.2 := by
  simp only [handleMsg, ht, if_neg hread]

/-- A record is refused, is an acknowledgement, or is numbered and handed to the tasks. -/
theorem handleMsg_cases {P : Payload → M Unit → Prop} (cfg : Config)
    (hmalformed : ∀ e, P .malformed (.raise e))
    (hunknown : ∀ msg e, MsgType.tryFrom msg.msgType = none → P (.json msg) (.raise e))
    (hread : ∀ msg, MsgType.tryFrom msg.msgType = some .read → P (.json msg) (handleMsgRead cfg msg))
    (htyped : ∀ msg mt, MsgType.tryFrom msg.msgType = some mt → mt ≠ .read →
      P (.json msg) (numberMsg cfg mt msg >>= fun p => dispatch cfg mt p.1 p.2))
    (payload : Payload) : P payload (handleMsg cfg payload) := by
  cases payload with
  | malformed => exact hmalformed _
  | json msg =>
    cases ht : MsgType.tryFrom msg.msgType with
    | none =>
      simp only [handleMsg, ht]
      exact hunknown msg _ ht
    | some mt =>
      by_cases hmt : mt = .read
      · subst hmt
        simp only [handleMsg, ht, if_pos]
        exact hread msg ht
      · rw [handleMsg_typed cfg ht hmt]
        exact htyped msg mt ht hmt

end Consumer

end Sandcat
