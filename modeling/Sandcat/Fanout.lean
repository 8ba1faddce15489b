import Sandcat.Durability
import Sandcat.InboxNumbers

/-!
# From a group message to its members

A group message is stored once for its sender and once for each other member, and
pushed to the clients of the members under the same numbers. The notifications of
the API take this way as well, as far as they name the group they are for.
-/

namespace Sandcat

open Remote Consecutive

namespace Hub

variable {hub : Hub}

/-- The platform that a sender's own copy goes to. -/
def otherPlatform (msg : Msg) : PlatformType :=
  if msg.platform = PlatformType.mobile.toI32 then .desktop else .mobile

theorem Shape.clients (h : hub.Shape) (id : UserId) :
    (hub.clients id).Nodup ∧ ∀ c ∈ hub.clients id, c.userId = id := by
  unfold Hub.clients
  cases hc : hub id with
  | none => simp
  | some cs =>
    obtain ⟨-, hn, hid⟩ := h id cs hc
    exact ⟨hn.of_map, hid⟩

/-- Each client of a member is sent the message with the member's number. -/
theorem Shape.sendMembers (h : hub.Shape) (members : List GroupMemSeq) (msg : Msg) :
    hub.sendMembers members msg = members.flatMap fun mem =>
      (hub.clients mem.memId).map fun c => (c, { msg with seq := mem.curSeq }) := by
  induction members generalizing msg with
  | nil => rfl
  | cons mem members ih =>
    rw [Hub.sendMembers, List.flatMap_cons]
    cases hc : hub mem.memId with
    | none =>
      dsimp only
      rw [ih, Hub.clients, hc]
      rfl
    | some cs =>
      dsimp only
      rw [ih, h.sendMsgToClients hc, Hub.clients, hc]
      rfl

/-- The sender's own copy is the message as it was sent, on the other platform. -/
theorem Shape.sendToSelf (h : hub.Shape) (id : UserId) (msg : Msg) :
    (hub.sendToSelf id msg).length ≤ 1 ∧ ∀ p ∈ hub.sendToSelf id msg,
      p.2 = msg ∧ p.1.userId = id ∧ p.1.platform = otherPlatform msg := by
  unfold Hub.sendToSelf
  cases hc : hub id with
  | none => simp
  | some cs =>
    dsimp only
    rw [← otherPlatform]
    cases hf : cs.find? (·.platform = otherPlatform msg) with
    | none => simp
    | some c =>
      refine ⟨by simp, ?_⟩
      intro p hp
      rw [List.mem_singleton.mp hp]
      exact ⟨rfl, (h id cs hc).2.2 c (List.mem_of_find?_eq_some hf),
        by simpa using List.find?_some hf⟩

end Hub

namespace Consumer

variable {cfg : Config} {w : World} {mt : MsgType} {msg : Msg}

end Consumer

namespace Hub

variable {hub : Hub} {members : List GroupMemSeq} {msg : Msg}

theorem Shape.sendMembers_userId (h : hub.Shape) {p : Client × Msg}
    (hp : p ∈ hub.sendMembers members msg) : p.1.userId ∈ members.map (·.memId) := by
  rw [h.sendMembers, List.mem_flatMap] at hp
  obtain ⟨mem, hm, hp⟩ := hp
  obtain ⟨c, hc, rfl⟩ := List.mem_map.mp hp
  exact List.mem_map.mpr ⟨mem, hm, ((h.clients _).2 c hc).symm⟩

theorem Shape.sendGroup_cases (h : hub.Shape) {p : Client × Msg}
    (hp : p ∈ hub.sendGroup members msg) : p.1.userId ∈ members.map (·.memId) ∨
      p.1.userId = msg.senderId ∧ p.2 = msg ∧ p.1.platform = otherPlatform msg := by
  rw [Hub.sendGroup, List.mem_append] at hp
  obtain hp | hp := hp
  · obtain ⟨hmsg, hid, hplatform⟩ := (h.sendToSelf _ msg).2 p hp
    exact .inr ⟨hid, hmsg, hplatform⟩
  · exact .inl (h.sendMembers_userId hp)

end Hub

theorem World.Drawn.handed_recipient {seqStep : Int} {w t : World} {us : List UserId} {v : UserId}
    (hd : w.Drawn seqStep (us.map seqKey) t) (hn : us.Nodup) (hv : v ∈ us) :
    t.handed (seqKey v) = w.handed (seqKey v) ++ [w.recCur v + 1] := by
  rw [hd.handed_user, List.count_eq_one_of_mem hn hv, above_one]

/-- A client of `b` and one of `c`. -/
def phone : Client := ⟨7, "b", "phone", .mobile⟩

def desktop : Client := ⟨8, "c", "desktop", .desktop⟩

/-- A message of `a` to the group. -/
def groupHello : Msg :=
  { senderId := "a", receiverId := "g", groupId := "g", serverId := "id", sendSeq := 1,
    msgType := MsgType.groupMsg.toI32 }

/-- Blocks of one number and the sharded inbox. -/
def Config.sharded : Config := ⟨1, .sharded 4, fun _ => 0⟩

end Sandcat
