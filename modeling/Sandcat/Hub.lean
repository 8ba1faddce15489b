import Sandcat.Message
import Mathlib.Data.List.Perm.Subperm
import Mathlib.Logic.Function.Basic

/-!
# The gateway's client hub and what it sends

The hub maps a user to the clients registered for it, at most one per platform.
A send is a client together with the message encoded for it. `unregister` touches
the hub twice, and anything may happen in between.
-/

namespace Sandcat

inductive PlatformType where
  | desktop | mobile
  deriving DecidableEq, Repr

def PlatformType.toI32 : PlatformType → Int
  | .desktop => 0
  | .mobile => 1

/-- A client of the hub; `conn` tells the websocket connections apart. -/
structure Client where
  conn : Nat
  userId : UserId
  platformId : String
  platform : PlatformType
  deriving DecidableEq, Repr

abbrev Hub := UserId → Option (List Client)

namespace Hub

def empty : Hub := fun _ => none

/-- `insert` into the inner map, whose key is the platform. -/
def insertClient (clients : List Client) (client : Client) : List Client :=
  client :: clients.filter (·.platform ≠ client.platform)

def register (hub : Hub) (id : UserId) (client : Client) : Hub :=
  Function.update hub id (some (insertClient ((hub id).getD []) client))

/-- The first hub access of `unregister`: the flag and the hub. -/
def unregisterCheck (hub : Hub) (id : UserId) (platform : PlatformType) : Bool × Hub :=
  match hub id with
  | none => (false, hub)
  | some clients =>
    if clients.length = 1 then (true, hub)
    else (false, Function.update hub id (some (clients.filter (·.platform ≠ platform))))

/-- The second hub access of `unregister`, made when the flag is set. -/
def unregisterRemove (hub : Hub) (id : UserId) : Hub := Function.update hub id none

/-- Hubs under any interleaving of `register` and the two accesses of `unregister`.
The second access is admitted at any time, whoever holds a flag for it. -/
inductive Reachable : Hub → Prop where
  | empty : Reachable empty
  | register {hub : Hub} (client : Client) : Reachable hub →
      Reachable (hub.register client.userId client)
  | check {hub : Hub} (id : UserId) (platform : PlatformType) : Reachable hub →
      Reachable (hub.unregisterCheck id platform).2
  | remove {hub : Hub} (id : UserId) : Reachable hub → Reachable (hub.unregisterRemove id)

/-- `send_msg_to_clients` with its branches on the number of clients. -/
def sendMsgToClients (clients : List Client) (msg : Msg) : List (Client × Msg) :=
  match clients with
  | [] => []
  | [client] => [(client, msg)]
  | [first, second] => [(first, msg), (second, msg)]
  | _ => []

/-- `send_to_self`: the sender's client on the other platform. -/
def sendToSelf (hub : Hub) (id : UserId) (msg : Msg) : List (Client × Msg) :=
  match hub id with
  | none => []
  | some clients =>
    let platform := if msg.platform = PlatformType.mobile.toI32 then PlatformType.desktop
      else PlatformType.mobile
    match clients.find? (·.platform = platform) with
    | some sender => [(sender, msg)]
    | none => []

def sendSingleMsg (hub : Hub) (objId : UserId) (msg : Msg) : List (Client × Msg) :=
  (match hub objId with
    | some clients => sendMsgToClients clients msg
    | none => []) ++ hub.sendToSelf msg.senderId msg

/-- The loop of `send_group`, which reuses one message and overwrites its `seq`. -/
def sendMembers (hub : Hub) : List GroupMemSeq → Msg → List (Client × Msg)
  | [], _ => []
  | mem :: objIds, msg =>
    match hub mem.memId with
    | some clients =>
      let msg := { msg with seq := mem.curSeq }
      sendMsgToClients clients msg ++ sendMembers hub objIds msg
    | none => sendMembers hub objIds msg

def sendGroup (hub : Hub) (objIds : List GroupMemSeq) (msg : Msg) : List (Client × Msg) :=
  hub.sendToSelf msg.senderId msg ++ hub.sendMembers objIds { msg with sendSeq := 0 }

/-- The clients registered for a user. -/
def clients (hub : Hub) (id : UserId) : List Client := (hub id).getD []

/-- Each user present has a client, on distinct platforms, under its own id. -/
def Shape (hub : Hub) : Prop :=
  ∀ id clients, hub id = some clients →
    clients ≠ [] ∧ (clients.map (·.platform)).Nodup ∧ ∀ c ∈ clients, c.userId = id

theorem insertClient_nodup {clients : List Client} (client : Client)
    (h : (clients.map (·.platform)).Nodup) :
    ((insertClient clients client).map (·.platform)).Nodup := by
  rw [insertClient, List.map_cons, List.nodup_cons]
  refine ⟨?_, h.sublist (List.filter_sublist.map _)⟩
  intro hm
  obtain ⟨c, hc, hp⟩ := List.mem_map.mp hm
  have := List.of_mem_filter hc
  simp [hp] at this

/-- Two platforms leave room for two clients. -/
theorem length_le_two {clients : List Client} (h : (clients.map (·.platform)).Nodup) :
    clients.length ≤ 2 := by
  rw [← List.length_map (·.platform)]
  have hsub : clients.map (·.platform) ⊆ [.desktop, .mobile] := by
    intro p _
    cases p <;> simp
  exact (h.subperm hsub).length_le

theorem filter_ne_nil {clients : List Client} (platform : PlatformType)
    (h : (clients.map (·.platform)).Nodup) (hne : clients ≠ []) (hlen : clients.length ≠ 1) :
    clients.filter (·.platform ≠ platform) ≠ [] := by
  obtain ⟨a, b, rest, rfl⟩ : ∃ a b rest, clients = a :: b :: rest := by
    match clients, hne, hlen with
    | a :: b :: rest, _, _ => exact ⟨a, b, rest, rfl⟩
  have hab : a.platform ≠ b.platform := by
    intro he
    simp [he] at h
  intro hnil
  have ha : a.platform = platform := by
    simpa using List.filter_eq_nil_iff.mp hnil a (by simp)
  have hb : b.platform = platform := by
    simpa using List.filter_eq_nil_iff.mp hnil b (by simp)
  exact hab (ha.trans hb.symm)

theorem Shape.register {hub : Hub} (h : hub.Shape) (client : Client) :
    (hub.register client.userId client).Shape := by
  intro id clients hid
  by_cases he : id = client.userId
  · subst he
    rw [Hub.register, Function.update_self, Option.some.injEq] at hid
    subst hid
    refine ⟨by simp [insertClient], ?_, ?_⟩
    · apply insertClient_nodup
      cases hc : hub client.userId with
      | none => simp
      | some cs => exact (h _ cs hc).2.1
    · intro c hc
      rw [insertClient, List.mem_cons] at hc
      obtain rfl | hc := hc
      · rfl
      · cases hcs : hub client.userId with
        | none => simp [hcs] at hc
        | some cs =>
          rw [hcs] at hc
          exact (h _ cs hcs).2.2 c (List.mem_of_mem_filter hc)
  · rw [Hub.register, Function.update_of_ne he] at hid
    exact h id clients hid

theorem Shape.check {hub : Hub} (h : hub.Shape) (id : UserId) (platform : PlatformType) :
    (hub.unregisterCheck id platform).2.Shape := by
  unfold unregisterCheck
  split
  · exact h
  · rename_i cs hcs
    obtain ⟨hne, hnd, hid⟩ := h id cs hcs
    split
    · exact h
    · rename_i hlen
      intro id' clients hc
      dsimp only at hc
      by_cases he : id' = id
      · subst he
        rw [Function.update_self, Option.some.injEq] at hc
        subst hc
        exact ⟨filter_ne_nil platform hnd hne hlen, hnd.sublist (List.filter_sublist.map _),
          fun c hc => hid c (List.mem_of_mem_filter hc)⟩
      · rw [Function.update_of_ne he] at hc
        exact h id' clients hc

theorem Shape.remove {hub : Hub} (h : hub.Shape) (id : UserId) :
    (hub.unregisterRemove id).Shape := by
  intro id' clients hc
  by_cases he : id' = id
  · subst he
    rw [unregisterRemove, Function.update_self] at hc
    cases hc
  · rw [unregisterRemove, Function.update_of_ne he] at hc
    exact h id' clients hc

/-- The shape holds in every reachable hub. -/
theorem Reachable.shape {hub : Hub} (h : Reachable hub) : hub.Shape := by
  induction h with
  | empty =>
    intro id clients hc
    cases hc
  | register client _ ih => exact ih.register client
  | check id platform _ ih => exact ih.check id platform
  | remove id _ ih => exact ih.remove id

/-- With one or two clients, every client is sent the message once. -/
theorem Shape.sendMsgToClients {hub : Hub} (h : hub.Shape) {id : UserId} {cs : List Client}
    (hid : hub id = some cs) (msg : Msg) :
    sendMsgToClients cs msg = cs.map fun c => (c, msg) := by
  obtain ⟨hne, hnd, -⟩ := h id cs hid
  have hlen := length_le_two hnd
  match cs, hne, hlen with
  | [a], _, _ => rfl
  | [a, b], _, _ => rfl
  | a :: b :: c :: rest, _, hlen => simp at hlen

end Hub

end Sandcat
