import Sandcat.Producer

/-!
# The handlers of the API that notify

A handler changes the database, then for new members the cache, and then publishes
a notification to the group, or to a friend, with a number drawn for the sender.
`content` is the encoding of a value that no component reads back.
-/

namespace Sandcat

open Remote

namespace GroupApi

/-- The number of the sender and the publication, common to all handlers. -/
def notify (cfg : Config) (nanoid : String) (userId : UserId)
    (request : Int → Int → SendMsgRequest) : M Unit := do
  let (seq, _, _) ← Cache.incrSendSeq cfg userId
  let now ← nowMillis
  Prog.void (Producer.sendMsg nanoid (request seq now))

def createGroupHandler (cfg : Config) (groupId nanoid : String) (content : Bincode.Bytes)
    (userId : UserId) (newGroup : GroupCreate) : M Unit := do
  let membersId := newGroup.membersId.filter (· ≠ "") ++ [userId]
  let members ← Db.createGroupWithMembers { newGroup with id := groupId, membersId }
  Cache.saveGroupMembersId groupId members
  notify cfg nanoid userId fun seq now =>
    SendMsgRequest.newWithGroupInvitation userId groupId seq content now

/-- The members go to the cache as listed in the request. -/
def inviteNewMembers (cfg : Config) (nanoid : String) (invitation : GroupInviteNew) : M Unit := do
  Db.inviteNewMembers invitation
  Cache.saveGroupMembersId invitation.groupId invitation.members
  notify cfg nanoid invitation.userId fun seq now =>
    SendMsgRequest.newWithGroupInviteNew invitation.userId invitation.groupId seq
      (encodeIds invitation.members) now

def removeMember (cfg : Config) (nanoid : String) (groupId : GroupId) (userId : UserId)
    (memId : List UserId) : M Unit := do
  Db.removeMember groupId userId memId
  notify cfg nanoid userId fun seq now =>
    SendMsgRequest.newWithGroupRemoveMem userId groupId seq (encodeIds memId) now

/-- Dismissal by the owner, or exit of a member. -/
def deleteGroupHandler (cfg : Config) (nanoid : String) (userId : UserId) (groupId : GroupId)
    (isDismiss : Bool) : M Unit := do
  let msg := if isDismiss then MsgType.groupDismiss else MsgType.groupMemberExit
  (if isDismiss then Db.deleteGroup groupId userId else Db.exitGroup userId groupId)
  notify cfg nanoid userId fun seq now =>
    SendMsgRequest.newWithGroupOperation userId groupId msg seq now

def updateGroupHandler (cfg : Config) (nanoid : String) (content : Bincode.Bytes)
    (userId : UserId) (groupId : GroupId) : M Unit := do
  let groupInfo ← Db.updateGroup groupId
  notify cfg nanoid userId fun seq now =>
    SendMsgRequest.newWithGroupUpdate userId groupInfo.id seq content now

def updateGroupSettings (cfg : Config) (castRole : Int → Option GroupRole) (nanoid : String)
    (content : Bincode.Bytes) (userId : UserId) (groupId : GroupId) (invitePermission : Int) :
    M Unit := do
  let _ ← Db.updateGroupSettings castRole groupId invitePermission
  notify cfg nanoid userId fun seq now =>
    SendMsgRequest.newWithGroupUpdate userId groupId seq content now

def uploadGroupFile (cfg : Config) (nanoid : String) (content : Bincode.Bytes)
    (uploaderId : UserId) (groupId : GroupId) : M Unit := do
  Db.uploadGroupFile groupId
  notify cfg nanoid uploaderId fun seq _ =>
    SendMsgRequest.newWithGroupFile uploaderId groupId seq content

def createPoll (cfg : Config) (nanoid : String) (content : Bincode.Bytes) (creatorId : UserId)
    (groupId : GroupId) : M Unit := do
  Db.createPoll groupId
  notify cfg nanoid creatorId fun seq _ =>
    SendMsgRequest.newWithGroupPoll creatorId groupId seq content

def muteGroupMember (cfg : Config) (nanoid : String) (content : Bincode.Bytes) (groupId : GroupId)
    (userId operatorId : UserId) : M Unit := do
  Db.muteGroupMember groupId userId operatorId
  notify cfg nanoid operatorId fun seq _ =>
    SendMsgRequest.newWithGroupMute operatorId groupId seq content

def createAnnouncement (cfg : Config) (nanoid : String) (content : Bincode.Bytes)
    (creatorId : UserId) (groupId : GroupId) : M Unit := do
  Db.createAnnouncement groupId creatorId
  notify cfg nanoid creatorId fun seq _ =>
    SendMsgRequest.newWithGroupAnnouncement creatorId groupId seq content

end GroupApi

namespace FriendApi

def createFriendship (cfg : Config) (nanoid : String) (content : Bincode.Bytes) (newFriend : FsCreate) :
    M Unit := do
  let (_, fsSend) ← Db.createFs newFriend
  GroupApi.notify cfg nanoid fsSend fun seq now =>
    SendMsgRequest.newWithFriendShipReq fsSend newFriend.friendId content seq now

/-- The number is drawn for the one who agrees. -/
def agree (cfg : Config) (nanoid : String) (content : Bincode.Bytes)
    (friendship : Option Friendship) : M Unit := do
  let (req, send) ← Db.agreeFriendApplyRequest friendship
  GroupApi.notify cfg nanoid send fun seq now =>
    SendMsgRequest.newWithFriendShipResp req content seq now

end FriendApi

end Sandcat
