import Sandcat.Fanout

/-!
# The notifications of the API

Nine constructors build the messages that announce a change of a group. The
consumer looks the members up under `receiver_id`, which only some of them fill.
-/

namespace Sandcat

open Remote Consecutive Bincode

/-- A call of one of the constructors `new_with_group_*`. -/
inductive GroupNotice where
  | operation (msgType : MsgType) (group : (Consumer.classifyMsgType msgType).1 = .group)
  | invitation (content : Bytes)
  | inviteNew (content : Bytes)
  | removeMem (content : Bytes)
  | update (content : Bytes)
  | file (content : Bytes)
  | poll (content : Bytes)
  | mute (content : Bytes)
  | announcement (content : Bytes)

namespace GroupNotice

/-- The request for the group `g` by the sender `s`. -/
def request (s : UserId) (g : GroupId) (seq now : Int) : GroupNotice → SendMsgRequest
  | operation msgType _ => .newWithGroupOperation s g msgType seq now
  | invitation content => .newWithGroupInvitation s g seq content now
  | inviteNew content => .newWithGroupInviteNew s g seq content now
  | removeMem content => .newWithGroupRemoveMem s g seq content now
  | update content => .newWithGroupUpdate s g seq content now
  | file content => .newWithGroupFile s g seq content
  | poll content => .newWithGroupPoll s g seq content
  | mute content => .newWithGroupMute s g seq content
  | announcement content => .newWithGroupAnnouncement s g seq content

/-- The constructor writes the group into `receiver_id`. -/
def addressesGroup : GroupNotice → Bool
  | operation _ _ | invitation _ | inviteNew _ | removeMem _ | update _ => true
  | file _ | poll _ | mute _ | announcement _ => false

def receiver (g : GroupId) (n : GroupNotice) : GroupId := if n.addressesGroup then g else ""

/-- A removal names somebody. -/
def namesMembers : GroupNotice → Bool
  | operation msgType _ => msgType ≠ .groupRemoveMember
  | removeMem content => !((decodeIds content).getD []).isEmpty
  | _ => true

variable (n : GroupNotice) (s : UserId) (g : GroupId) (seq now : Int)

/-- What the consumer reads of the message. -/
theorem request_message : ∃ msg, (n.request s g seq now).message = some msg ∧
    msg.senderId = s ∧ msg.receiverId = n.receiver g ∧
    badRemoval msg = !n.namesMembers ∧ isReceived msg.msgType = false ∧
    ∃ mt, MsgType.tryFrom msg.msgType = some mt ∧ (Consumer.classifyMsgType mt).1 = .group := by
  cases n with
  | operation msgType hk =>
    refine ⟨_, rfl, rfl, rfl, ?_, Consumer.not_isReceived_group hk (MsgType.tryFrom_toI32 _), msgType,
      MsgType.tryFrom_toI32 _, hk⟩
    cases msgType <;> rfl
  | removeMem content =>
    exact ⟨_, rfl, rfl, rfl, by simp [badRemoval, namesMembers], rfl, _, rfl, rfl⟩
  | _ content => exact ⟨_, rfl, rfl, rfl, rfl, rfl, _, rfl, rfl⟩

/-- The record that the producer publishes for the request. -/
theorem published {nanoid : String} {w : World} {payload : Payload}
    (h : ((Producer.sendMsg nanoid (n.request s g seq now)).after w).queue = w.queue ++ [payload]) :
    ∃ msg, payload = .json msg ∧ msg.senderId = s ∧ msg.receiverId = n.receiver g ∧
      badRemoval msg = !n.namesMembers ∧
      ∃ mt, MsgType.tryFrom msg.msgType = some mt ∧ (Consumer.classifyMsgType mt).1 = .group := by
  obtain ⟨msg, hmsg, hs, hr, hb, hrec, mt, ht, hk⟩ := n.request_message s g seq now
  have hqueue : ((Producer.sendMsg nanoid (n.request s g seq now)).after w).queue =
      w.queue ++ [.json (Producer.stamp nanoid w.now msg)] := by
    rw [Producer.sendMsg, hmsg]
    rfl
  rw [hqueue] at h
  have hpayload := List.singleton_inj.mp (List.append_cancel_left h)
  refine ⟨_, hpayload.symm, ?_⟩
  rw [Producer.stamp, hrec, if_neg (by decide)]
  exact ⟨hs, hr, hb, mt, ht, hk⟩

end GroupNotice

/-- Every other member has been given one number and one document under it. -/
def Reached (w t : World) (members : List UserId) (s : UserId) : Prop :=
  ∃ docs, t.inbox = w.inbox ++ docs ∧ ∀ v ∈ members, v ≠ s → ∃ number,
    t.handed (seqKey v) = w.handed (seqKey v) ++ [number] ∧
      (docs.filter (·.getStr .receiverId = some v)).map Document.inboxKey =
        [(some v, some number)]

end Sandcat
