import Sandcat.Connections
import Sandcat.Fanout
import Sandcat.Producer

/-!
# Copies that reach a client

A send to a user goes to each of its clients once. The sender's other platform gets a
copy as well, so a user who is target and sender at once can be sent two.
-/

namespace Sandcat

open Remote

namespace Hub

variable {hub : Hub}

/-- The sends that go to a client. -/
def copiesTo (sends : List (Client × Msg)) (c : Client) : List (Client × Msg) :=
  sends.filter (·.1 = c)

theorem copiesTo_map {cs : List Client} (hn : cs.Nodup) (msg : Msg) (c : Client) :
    copiesTo (cs.map fun c => (c, msg)) c = if c ∈ cs then [(c, msg)] else [] := by
  have hcomp : ((fun p : Client × Msg => decide (p.1 = c)) ∘ fun d => (d, msg)) =
      fun d => decide (d = c) := rfl
  rw [copiesTo, List.filter_map, hcomp, List.filter_eq]
  by_cases hc : c ∈ cs
  · rw [List.count_eq_one_of_mem hn hc, if_pos hc]
    rfl
  · rw [List.count_eq_zero_of_not_mem hc, if_neg hc]
    rfl

/-- The entry under a client's platform is that client. -/
theorem find_platform {cs : List Client} (hn : (cs.map (·.platform)).Nodup) {c : Client}
    (hc : c ∈ cs) : cs.find? (·.platform = c.platform) = some c := by
  cases hf : cs.find? (·.platform = c.platform) with
  | none =>
    have := List.find?_eq_none.mp hf c hc
    simp at this
  | some d =>
    have hp : d.platform = c.platform := by simpa using List.find?_some hf
    rw [List.inj_on_of_nodup_map hn (List.mem_of_find?_eq_some hf) hc hp]

end Hub

/-- A user in the hub has one or two clients under their own platforms and its id, and a
message for the user is sent to each of them once. -/
theorem present_user_served {hub : Hub} (h : hub.Reachable) {id : UserId} {cs : List Client}
    (hid : hub id = some cs) :
    (cs.length = 1 ∨ cs.length = 2) ∧
      (∀ c ∈ cs, c.userId = id ∧ cs.find? (·.platform = c.platform) = some c) ∧
      ∀ msg c, Hub.copiesTo (Hub.sendMsgToClients cs msg) c = if c ∈ cs then [(c, msg)] else [] := by
  obtain ⟨hne, hn, huser⟩ := h.shape id cs hid
  refine ⟨?_, ?_, ?_⟩
  · have hpos := List.length_pos_iff.mpr hne
    have hle := Hub.length_le_two hn
    omega
  · intro c hc
    exact ⟨huser c hc, Hub.find_platform hn hc⟩
  · intro msg c
    rw [h.shape.sendMsgToClients hid, Hub.copiesTo_map hn.of_map]

/-- A hub with the desktop and the phone of `u`. -/
def twoPlatforms : Hub := (Hub.empty.register "u" desk).register "u" handset

theorem reachable_twoPlatforms : twoPlatforms.Reachable := .register handset (.register desk .empty)

theorem present_user_served_two :
    twoPlatforms "u" = some [handset, desk] ∧
      ∀ msg c, Hub.copiesTo (Hub.sendMsgToClients [handset, desk] msg) c =
        if c ∈ [handset, desk] then [(c, msg)] else [] := by
  have hid : twoPlatforms "u" = some [handset, desk] := by decide
  exact ⟨hid, (present_user_served reachable_twoPlatforms hid).2.2⟩

/-- No client is sent two copies. -/
def AtMostOnce (sends : List (Client × Msg)) : Prop := ∀ c, (Hub.copiesTo sends c).length ≤ 1

theorem atMostOnce_iff {sends : List (Client × Msg)} :
    AtMostOnce sends ↔ (sends.map Prod.fst).Nodup := by
  rw [List.nodup_iff_count_le_one]
  apply forall_congr'
  intro c
  rw [Hub.copiesTo, List.count, List.countP_map, List.countP_eq_length_filter]
  rfl

namespace Hub

variable {hub : Hub}

/-- The clients that `send_single_msg` sends to, in its order. -/
theorem Shape.sendSingleMsg_clients (h : hub.Shape) (objId : UserId) (msg : Msg) :
    (hub.sendSingleMsg objId msg).map Prod.fst = hub.clients objId ++
      ((hub.clients msg.senderId).find? (·.platform = otherPlatform msg)).toList := by
  rw [sendSingleMsg, List.map_append]
  congr 1
  · cases hid : hub objId with
    | none => simp [Hub.clients, hid]
    | some cs => simp [h.sendMsgToClients hid, Hub.clients, hid, Function.comp_def]
  · unfold Hub.sendToSelf Hub.clients
    cases hid : hub msg.senderId with
    | none => rfl
    | some cs =>
      dsimp only [Option.getD_some]
      rw [← otherPlatform]
      cases cs.find? (·.platform = otherPlatform msg) <;> rfl

/-- The copy for the sender's other platform is a second one exactly when the sender is
the target. -/
theorem Shape.atMostOnce_sendSingleMsg (h : hub.Shape) (objId : UserId) (msg : Msg) :
    AtMostOnce (hub.sendSingleMsg objId msg) ↔ (objId = msg.senderId →
      ∀ c ∈ hub.clients msg.senderId, c.platform ≠ otherPlatform msg) := by
  rw [atMostOnce_iff, h.sendSingleMsg_clients]
  cases hf : (hub.clients msg.senderId).find? (·.platform = otherPlatform msg) with
  | none =>
    have hnone := List.find?_eq_none.mp hf
    simp only [Option.toList_none, List.append_nil, (h.clients objId).1, true_iff]
    intro _ c hc
    simpa using hnone c hc
  | some c =>
    have hc := List.mem_of_find?_eq_some hf
    have hp : c.platform = otherPlatform msg := by simpa using List.find?_some hf
    rw [Option.toList_some, List.nodup_append]
    constructor
    · rintro ⟨-, -, hdisj⟩ rfl
      exact absurd rfl (hdisj c hc c List.mem_cons_self)
    · intro hcond
      refine ⟨(h.clients objId).1, List.nodup_singleton c, ?_⟩
      intro d hd e he hde
      rw [List.mem_singleton.mp he] at hde
      subst hde
      exact hcond ((h.userId hd).symm.trans (h.userId hc)) d hc hp

end Hub

namespace Rpc

/-- `send_msg_to_user` of the gateway. -/
def sendMsgToUser (hub : Hub) (request : SendMsgRequest) : Except String (List (Client × Msg)) :=
  match request.message with
  | none => .error "message is empty"
  | some msg => .ok (hub.sendSingleMsg msg.receiverId msg)

end Rpc

namespace Manager

/-- The end of a turn of `run`: the reply goes to the clients of its sender. -/
def reply (hub : Hub) (message : Msg) : List (Client × Msg) :=
  hub.sendSingleMsg message.senderId message

variable {cfg : Config} {text : Error → String} {nanoid : String} {message : Msg}

/-- Whatever becomes of the calls, the reply has the sender and the platform of the message. -/
theorem faulty_processMessage {w t : World} {r : Msg}
    (h : Prog.Faulty (processMessage cfg text nanoid message) w (.ok r) t) :
    r.senderId = message.senderId ∧ r.platform = message.platform := by
  obtain ⟨numbered, u, -, h⟩ := Prog.faulty_bind_ok h
  cases numbered with
  | error e =>
    cases h
    exact ⟨rfl, rfl⟩
  | ok p =>
    obtain ⟨sent, v, -, h⟩ := Prog.faulty_bind_ok h
    cases sent with
    | error e =>
      cases h
      exact ⟨rfl, rfl⟩
    | ok response =>
      cases h
      dsimp only
      split <;> exact ⟨rfl, rfl⟩

end Manager

/-- One call sends each client at most one copy if and only if the target is another user
than the sender, or the sender has no client on the platform that its own copy goes to.
A reply has its sender for a target, a pushed message its receiver. -/
theorem at_most_one_copy_iff {hub : Hub} (h : hub.Reachable) :
    (∀ objId msg, AtMostOnce (hub.sendSingleMsg objId msg) ↔ (objId = msg.senderId →
      ∀ c ∈ hub.clients msg.senderId, c.platform ≠ Hub.otherPlatform msg)) ∧
    (∀ cfg text nanoid message w r t,
      Prog.Faulty (Manager.processMessage cfg text nanoid message) w (.ok r) t →
        (AtMostOnce (Manager.reply hub r) ↔
          ∀ c ∈ hub.clients message.senderId, c.platform ≠ Hub.otherPlatform message)) ∧
    ∀ msg sends, Rpc.sendMsgToUser hub ⟨some msg⟩ = .ok sends →
      (AtMostOnce sends ↔ (msg.receiverId = msg.senderId →
        ∀ c ∈ hub.clients msg.senderId, c.platform ≠ Hub.otherPlatform msg)) := by
  refine ⟨h.shape.atMostOnce_sendSingleMsg, ?_, ?_⟩
  · intro cfg text nanoid message w r t hr
    obtain ⟨hsender, hplatform⟩ := Manager.faulty_processMessage hr
    rw [Manager.reply, h.shape.atMostOnce_sendSingleMsg]
    simp only [Hub.otherPlatform, hsender, hplatform, forall_const]
  · intro msg sends hs
    cases hs
    exact h.shape.atMostOnce_sendSingleMsg msg.receiverId msg

/-- A note of `u` to itself, written on the desktop. -/
def noteToSelf : Msg := { senderId := "u", receiverId := "u" }

theorem at_most_one_copy_iff_twoPlatforms :
    AtMostOnce (twoPlatforms.sendSingleMsg "v" noteToSelf) :=
  ((at_most_one_copy_iff reachable_twoPlatforms).1 "v" noteToSelf).mpr
    fun h => absurd h (by decide)

/-- The phone is sent the note twice. -/
theorem note_to_self_sent_twice :
    (∃ hub : Hub, hub.Reachable ∧ ∃ objId msg, ¬ AtMostOnce (hub.sendSingleMsg objId msg)) ∧
      (Hub.copiesTo (twoPlatforms.sendSingleMsg "u" noteToSelf) handset).length = 2 := by
  have htwo : (Hub.copiesTo (twoPlatforms.sendSingleMsg "u" noteToSelf) handset).length = 2 := by
    decide
  refine ⟨⟨twoPlatforms, reachable_twoPlatforms, "u", noteToSelf, ?_⟩, htwo⟩
  intro h
  have := h handset
  omega

end Sandcat
