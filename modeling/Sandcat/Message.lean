import Sandcat.Lib.Bincode
import Mathlib.Data.List.Nodup

/-!
# Messages, their types and the notifications the API builds

Field names and defaults follow the protobuf definitions. Machine integers are
unbounded here; a statement about a width names the width where it matters.
JSON is taken as faithful, so a queue payload is the message it spells or a text
that spells none.
-/

namespace Sandcat

open Bincode (Bytes)

abbrev UserId := String
abbrev GroupId := String

inductive MsgType where
  | singleMsg | groupMsg | groupInvitation | groupInviteNew | groupMemberExit | groupRemoveMember
  | groupDismiss | groupDismissOrExitReceived | groupInvitationReceived | groupUpdate | groupFile
  | groupPoll | groupMute | groupAnnouncement | friendApplyReq | friendApplyResp | friendBlack
  | friendDelete | singleCallInvite | rejectSingleCall | agreeSingleCall
  | singleCallInviteNotAnswer | singleCallInviteCancel | singleCallOffer | hangup
  | connectSingleCall | candidate | read | msgRecResp | notification | service
  | friendshipReceived
  deriving DecidableEq, Repr

namespace MsgType

/-- The enumeration in the order of its protobuf numbers. -/
def codes : List MsgType :=
  [.singleMsg, .groupMsg, .groupInvitation, .groupInviteNew, .groupMemberExit, .groupRemoveMember,
    .groupDismiss, .groupDismissOrExitReceived, .groupInvitationReceived, .groupUpdate, .groupFile,
    .groupPoll, .groupMute, .groupAnnouncement, .friendApplyReq, .friendApplyResp, .friendBlack,
    .friendDelete, .singleCallInvite, .rejectSingleCall, .agreeSingleCall,
    .singleCallInviteNotAnswer, .singleCallInviteCancel, .singleCallOffer, .hangup,
    .connectSingleCall, .candidate, .read, .msgRecResp, .notification, .service,
    .friendshipReceived]

/-- `msg_type as i32`. -/
def toI32 (t : MsgType) : Int := codes.idxOf t

/-- `MsgType::try_from`. -/
def tryFrom (i : Int) : Option MsgType := if 0 ≤ i then codes[i.toNat]? else none

@[simp] theorem tryFrom_toI32 (t : MsgType) : tryFrom t.toI32 = some t := by
  cases t <;> rfl

theorem toI32_injective : Function.Injective toI32 := by
  intro s t h
  have hs := tryFrom_toI32 s
  rw [h, tryFrom_toI32] at hs
  exact (Option.some.inj hs).symm

@[simp] theorem toI32_inj {s t : MsgType} : s.toI32 = t.toI32 ↔ s = t := toI32_injective.eq_iff

/-- Only the number of a type is read as that type. -/
theorem eq_toI32_of_tryFrom {i : Int} {t : MsgType} (h : tryFrom i = some t) : i = t.toI32 := by
  unfold tryFrom at h
  split at h
  · rename_i hi
    obtain ⟨hlt, ht⟩ := List.getElem?_eq_some_iff.mp h
    have hidx : codes.idxOf t = i.toNat := by
      rw [← ht]
      exact List.Nodup.idxOf_getElem (by decide) _ hlt
    rw [toI32, hidx]
    omega
  · cases h

end MsgType

structure Msg where
  senderId : String := ""
  receiverId : String := ""
  clientId : String := ""
  serverId : String := ""
  createTime : Int := 0
  sendTime : Int := 0
  seq : Int := 0
  msgType : Int := 0
  contentType : Int := 0
  content : Bytes := []
  isRead : Bool := false
  groupId : String := ""
  platform : Int := 0
  avatar : String := ""
  nickname : String := ""
  relatedMsgId : Option String := none
  sendSeq : Int := 0
  deriving DecidableEq

/-- The delivery reports: the producer keeps their `server_id`, and the consumer deletes
the message it names. -/
def isReceived (msgType : Int) : Bool :=
  msgType = MsgType.groupDismissOrExitReceived.toI32 ||
    msgType = MsgType.groupInvitationReceived.toI32 || msgType = MsgType.friendshipReceived.toI32

structure MsgRead where
  msgSeq : List Int
  userId : String
  deriving DecidableEq, Repr

structure GroupMemSeq where
  memId : UserId
  curSeq : Int
  maxSeq : Int
  needUpdate : Bool
  deriving DecidableEq, Repr

/-- `bincode::decode_from_slice::<MsgRead>`, which ignores what follows the value. -/
def decodeMsgRead (content : Bytes) : Option MsgRead :=
  (Bincode.vec Bincode.signed content).bind fun r =>
    (Bincode.string r.2).map fun q => ⟨r.1, q.1⟩

/-- `bincode::decode_from_slice::<Vec<String>>`. -/
def decodeIds (content : Bytes) : Option (List String) :=
  (Bincode.vec Bincode.string content).map Prod.fst

/-- `bincode::encode_to_vec(&Vec<String>)`. -/
def encodeIds (ids : List String) : Bytes := Bincode.encodeVec Bincode.encodeString ids

/-- The lengths of a vector of strings in memory. -/
def InMemory (ids : List String) : Prop :=
  ids.length < 2 ^ 64 ∧ ∀ s ∈ ids, s.toByteArray.size < 2 ^ 64

theorem decodeIds_encodeIds {ids : List String} (h : InMemory ids) :
    decodeIds (encodeIds ids) = some ids := by
  have hv := Bincode.vec_encode (e := Bincode.encodeString) ids h.1
    (fun s hs rest => Bincode.string_encode (h.2 s hs) rest) []
  rw [List.append_nil] at hv
  simp [decodeIds, encodeIds, hv]

/-- A record of the queue as `serde_json::from_str` sees it. -/
inductive Payload where
  | json : Msg → Payload
  | malformed : Payload

inductive ErrorKind where
  | unknownError | dbError | configReadError | configParseError | notFound | broadCastError
  | internalServer | bodyParsing | pathParsing | unAuthorized | parseError | tonicError
  | mongoDbValueAccessError | mongoDbBsonSerError | mongoDbOperateError | redisError | ioError
  | reqwestError | serviceNotFound | badRequest | accountOrPassword | ossError | codeIsExpired
  | codeIsInvalid | binCode
  deriving DecidableEq, Repr

/-- An error value, or the panic of a task. -/
inductive Error where
  | mk (kind : ErrorKind) (details : Option String)
  | panic
  deriving DecidableEq, Repr

structure SendMsgRequest where
  message : Option Msg

namespace SendMsgRequest

/-- The constructors that address the group in both id fields. -/
def addressed (msgType : MsgType) (senderId groupId : String) (sendSeq : Int) (content : Bytes)
    (now : Int) : SendMsgRequest :=
  ⟨some { senderId, groupId, receiverId := groupId, sendTime := now, msgType := msgType.toI32,
          content, sendSeq }⟩

/-- The constructors that fill `group_id` and `seq` only. -/
def unaddressed (msgType : MsgType) (sender groupId : String) (seq : Int) (content : Bytes) :
    SendMsgRequest :=
  ⟨some { senderId := sender, groupId, seq, content, msgType := msgType.toI32 }⟩

def newWithFriendShipReq (senderId receiverId : String) (fs : Bytes) (sendSeq : Int) (now : Int) :
    SendMsgRequest :=
  ⟨some { senderId, receiverId, sendTime := now, msgType := MsgType.friendApplyReq.toI32,
          content := fs, sendSeq }⟩

/-- The answer to a friend request, which has no sender. -/
def newWithFriendShipResp (receiverId : String) (fs : Bytes) (sendSeq : Int) (now : Int) :
    SendMsgRequest :=
  ⟨some { receiverId, sendTime := now, msgType := MsgType.friendApplyResp.toI32,
          content := fs, sendSeq }⟩

def newWithGroupOperation (senderId receiverId : String) (msgType : MsgType) (sendSeq : Int)
    (now : Int) : SendMsgRequest := addressed msgType senderId receiverId sendSeq [] now

def newWithGroupInvitation (senderId receiverId : String) (sendSeq : Int) (invitation : Bytes)
    (now : Int) : SendMsgRequest :=
  addressed .groupInvitation senderId receiverId sendSeq invitation now

def newWithGroupInviteNew (senderId receiverId : String) (sendSeq : Int) (invitation : Bytes)
    (now : Int) : SendMsgRequest :=
  addressed .groupInviteNew senderId receiverId sendSeq invitation now

def newWithGroupRemoveMem (senderId groupId : String) (sendSeq : Int) (invitation : Bytes)
    (now : Int) : SendMsgRequest :=
  addressed .groupRemoveMember senderId groupId sendSeq invitation now

def newWithGroupUpdate (senderId receiverId : String) (sendSeq : Int) (msg : Bytes)
    (now : Int) : SendMsgRequest := addressed .groupUpdate senderId receiverId sendSeq msg now

def newWithGroupFile (sender groupId : String) (seq : Int) (content : Bytes) : SendMsgRequest :=
  unaddressed .groupFile sender groupId seq content

def newWithGroupPoll (sender groupId : String) (seq : Int) (content : Bytes) : SendMsgRequest :=
  unaddressed .groupPoll sender groupId seq content

def newWithGroupMute (sender groupId : String) (seq : Int) (content : Bytes) : SendMsgRequest :=
  unaddressed .groupMute sender groupId seq content

def newWithGroupAnnouncement (sender groupId : String) (seq : Int) (content : Bytes) :
    SendMsgRequest := unaddressed .groupAnnouncement sender groupId seq content

end SendMsgRequest

end Sandcat
