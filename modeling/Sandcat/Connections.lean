import Sandcat.Hub

/-!
# Websocket connections and the hub

A connection registers its client and runs until one of its tasks ends. Then it
returns, or it unregisters in two accesses to the hub. Any number of connections do
this side by side. A connection is known by its client; the client is dropped when the
hub holds it no longer, and only then can the connection learn that it was knocked off.
-/

namespace Sandcat

namespace Hub

variable {hub : Hub}

theorem clients_register (hub : Hub) (id : UserId) (c : Client) (id' : UserId) :
    (hub.register id c).clients id' =
      if id' = id then insertClient (hub.clients id) c else hub.clients id' := by
  unfold clients register
  by_cases h : id' = id
  · subst h
    simp
  · simp [h]

/-- The first access sets the flag and nothing else, or takes one platform of one user out. -/
theorem unregisterCheck_cases (hub : Hub) (id : UserId) (platform : PlatformType) :
    ((hub.unregisterCheck id platform).1 = true ∧ (hub.unregisterCheck id platform).2 = hub ∧
      ∃ c, hub.clients id = [c]) ∨
    ((hub.unregisterCheck id platform).1 = false ∧
      ∀ id', (hub.unregisterCheck id platform).2.clients id' =
        if id' = id then (hub.clients id).filter (·.platform ≠ platform) else hub.clients id') := by
  unfold unregisterCheck clients
  cases hc : hub id with
  | none =>
    right
    refine ⟨rfl, ?_⟩
    intro id'
    by_cases h : id' = id
    · subst h
      simp [hc]
    · simp [h]
  | some cs =>
    dsimp only
    by_cases hlen : cs.length = 1
    · left
      rw [if_pos hlen]
      exact ⟨rfl, rfl, List.length_eq_one_iff.mp hlen⟩
    · right
      rw [if_neg hlen]
      refine ⟨rfl, ?_⟩
      intro id'
      by_cases h : id' = id
      · subst h
        simp
      · simp [h]

theorem clients_unregisterRemove (hub : Hub) (id id' : UserId) :
    (hub.unregisterRemove id).clients id' = if id' = id then [] else hub.clients id' := by
  unfold clients unregisterRemove
  by_cases h : id' = id
  · subst h
    simp
  · simp [h]

theorem mem_insertClient {clients : List Client} {c d : Client} :
    d ∈ insertClient clients c ↔ d = c ∨ d ∈ clients ∧ d.platform ≠ c.platform := by
  simp [insertClient]

theorem Shape.userId (h : hub.Shape) {id : UserId} {c : Client} (hc : c ∈ hub.clients id) :
    c.userId = id := by
  unfold clients at hc
  cases hid : hub id with
  | none =>
    rw [hid] at hc
    cases hc
  | some cs =>
    rw [hid] at hc
    exact (h id cs hid).2.2 c hc

/-- A user has one client on a platform. -/
theorem Shape.eq_of_platform (h : hub.Shape) {id : UserId} {c d : Client}
    (hc : c ∈ hub.clients id) (hd : d ∈ hub.clients id) (he : d.platform = c.platform) : d = c := by
  unfold clients at hc hd
  cases hid : hub id with
  | none =>
    rw [hid] at hc
    cases hc
  | some cs =>
    rw [hid] at hc hd
    exact List.inj_on_of_nodup_map (h id cs hid).2.1 hd hc he

end Hub

inductive TaskExitReason where
  | pingFailed | knockOff | clientDisconnected | idleTimeout
  deriving DecidableEq, Repr

/-- `need_unregister`. -/
def TaskExitReason.needUnregister : TaskExitReason → Bool
  | .knockOff => false
  | _ => true

/-- Where `websocket` stands after its registration: its tasks run, the first access of
`unregister` comes next, the second one does, or it has returned. -/
inductive Stage where
  | running | leaving | flagged | returned
  deriving DecidableEq, Repr

/-- The hub and the connections that have been made. -/
structure Gateway where
  hub : Hub
  stage : Client → Option Stage

inductive ConnEvent where
  | connect (c : Client)
  | exit (c : Client) (reason : TaskExitReason)
  | check (c : Client)
  | remove (c : Client)
  deriving DecidableEq, Repr

/-- The connection that an event is about. -/
def ConnEvent.client : ConnEvent → Client
  | .connect c | .exit c _ | .check c | .remove c => c

namespace Gateway

def empty : Gateway := ⟨.empty, fun _ => none⟩

def move (s : Gateway) (hub : Hub) (c : Client) (stage : Stage) : Gateway :=
  ⟨hub, Function.update s.stage c (some stage)⟩

def step (s : Gateway) : ConnEvent → Option Gateway
  | .connect c =>
    if s.stage c = none then some (s.move (s.hub.register c.userId c) c .running) else none
  | .exit c reason =>
    if s.stage c = some .running ∧ (reason = .knockOff → c ∉ s.hub.clients c.userId) then
      some (s.move s.hub c (if reason.needUnregister then .leaving else .returned))
    else none
  | .check c =>
    if s.stage c = some .leaving then
      let (flag, hub) := s.hub.unregisterCheck c.userId c.platform
      some (s.move hub c (if flag then .flagged else .returned))
    else none
  | .remove c =>
    if s.stage c = some .flagged then some (s.move (s.hub.unregisterRemove c.userId) c .returned)
    else none

variable {s t : Gateway} {c d : Client}

theorem step_connect : s.step (.connect c) = some t ↔
    s.stage c = none ∧ s.move (s.hub.register c.userId c) c .running = t := by
  simp [step]

theorem step_exit {reason : TaskExitReason} : s.step (.exit c reason) = some t ↔
    (s.stage c = some .running ∧ (reason = .knockOff → c ∉ s.hub.clients c.userId)) ∧
      s.move s.hub c (if reason.needUnregister then .leaving else .returned) = t := by
  simp [step]

theorem step_check : s.step (.check c) = some t ↔ s.stage c = some .leaving ∧
    s.move (s.hub.unregisterCheck c.userId c.platform).2 c
      (if (s.hub.unregisterCheck c.userId c.platform).1 then .flagged else .returned) = t := by
  simp [step]

theorem step_remove : s.step (.remove c) = some t ↔
    s.stage c = some .flagged ∧ s.move (s.hub.unregisterRemove c.userId) c .returned = t := by
  simp [step]

@[simp] theorem stage_move_self {hub : Hub} {p : Stage} : (s.move hub c p).stage c = some p :=
  Function.update_self ..

theorem stage_move_of_ne {hub : Hub} {p : Stage} (h : d ≠ c) : (s.move hub c p).stage d = s.stage d :=
  Function.update_of_ne h ..

@[simp] theorem hub_move {hub : Hub} {p : Stage} : (s.move hub c p).hub = hub := rfl

/-- An event moves its own connection only. -/
theorem stage_step {e : ConnEvent} (h : s.step e = some t) :
    (∃ p, t.stage e.client = some p) ∧ ∀ d, d ≠ e.client → t.stage d = s.stage d := by
  cases e with
  | connect c =>
    obtain ⟨-, rfl⟩ := step_connect.mp h
    exact ⟨⟨_, stage_move_self⟩, fun d hd => stage_move_of_ne hd⟩
  | exit c reason =>
    obtain ⟨-, rfl⟩ := step_exit.mp h
    exact ⟨⟨_, stage_move_self⟩, fun d hd => stage_move_of_ne hd⟩
  | check c =>
    obtain ⟨-, rfl⟩ := step_check.mp h
    exact ⟨⟨_, stage_move_self⟩, fun d hd => stage_move_of_ne hd⟩
  | remove c =>
    obtain ⟨-, rfl⟩ := step_remove.mp h
    exact ⟨⟨_, stage_move_self⟩, fun d hd => stage_move_of_ne hd⟩

/-- A client enters the hub when its connection registers it. -/
theorem mem_clients_of_step {e : ConnEvent} {id : UserId} (h : s.step e = some t)
    (hc : c ∈ t.hub.clients id) : c ∈ s.hub.clients id ∨ e = .connect c := by
  cases e with
  | connect d =>
    obtain ⟨-, rfl⟩ := step_connect.mp h
    rw [hub_move, Hub.clients_register] at hc
    split at hc
    · rename_i hid
      subst hid
      obtain rfl | ⟨hc, -⟩ := Hub.mem_insertClient.mp hc
      · exact .inr rfl
      · exact .inl hc
    · exact .inl hc
  | exit d reason =>
    obtain ⟨-, rfl⟩ := step_exit.mp h
    exact .inl hc
  | check d =>
    obtain ⟨-, rfl⟩ := step_check.mp h
    rw [hub_move] at hc
    left
    obtain ⟨-, hhub, -⟩ | ⟨-, hhub⟩ := s.hub.unregisterCheck_cases d.userId d.platform
    · rwa [hhub] at hc
    · rw [hhub] at hc
      split at hc
      · rename_i hid
        exact hid ▸ List.mem_of_mem_filter hc
      · exact hc
  | remove d =>
    obtain ⟨-, rfl⟩ := step_remove.mp h
    rw [hub_move, Hub.clients_unregisterRemove] at hc
    left
    split at hc
    · cases hc
    · exact hc

/-- A connection whose client is in the hub afterwards has not returned. -/
theorem stage_ne_returned_of_step {e : ConnEvent} (h : s.step e = some t)
    (hc : e.client ∈ t.hub.clients e.client.userId) : t.stage e.client ≠ some .returned := by
  cases e with
  | connect c =>
    obtain ⟨-, rfl⟩ := step_connect.mp h
    simp [ConnEvent.client]
  | exit c reason =>
    obtain ⟨⟨-, hknock⟩, rfl⟩ := step_exit.mp h
    cases reason with
    | knockOff => exact absurd hc (hknock rfl)
    | _ => simp [ConnEvent.client, TaskExitReason.needUnregister]
  | check c =>
    obtain ⟨-, rfl⟩ := step_check.mp h
    obtain ⟨hflag, -⟩ | ⟨-, hhub⟩ := s.hub.unregisterCheck_cases c.userId c.platform
    · simp [ConnEvent.client, hflag]
    · simp [ConnEvent.client, hhub] at hc
  | remove c =>
    obtain ⟨-, rfl⟩ := step_remove.mp h
    simp [ConnEvent.client, Hub.clients_unregisterRemove] at hc

end Gateway

/-- The runs of a gateway, whose events are allowed by a condition on the state before them. -/
inductive Connected (allowed : Gateway → ConnEvent → Prop) : Gateway → Prop where
  | start : Connected allowed .empty
  | step {s t : Gateway} (e : ConnEvent) : Connected allowed s → allowed s e → s.step e = some t →
      Connected allowed t

namespace Connected

open Gateway

variable {allowed : Gateway → ConnEvent → Prop} {s t : Gateway}

/-- The hub of a gateway goes through registrations and the accesses of `unregister`. -/
theorem reachable (h : Connected allowed s) : s.hub.Reachable := by
  induction h with
  | start => exact .empty
  | step e _ _ hstep ih =>
    cases e with
    | connect c =>
      obtain ⟨-, rfl⟩ := step_connect.mp hstep
      exact .register c ih
    | exit c reason =>
      obtain ⟨-, rfl⟩ := step_exit.mp hstep
      exact ih
    | check c =>
      obtain ⟨-, rfl⟩ := step_check.mp hstep
      exact .check _ _ ih
    | remove c =>
      obtain ⟨-, rfl⟩ := step_remove.mp hstep
      exact .remove _ ih

end Connected

/-- A client in the hub belongs to a connection that is still in `websocket`. -/
theorem registered_client_alive {allowed : Gateway → ConnEvent → Prop} {s : Gateway}
    (h : Connected allowed s) {id : UserId} {c : Client} (hc : c ∈ s.hub.clients id) :
    ∃ p, s.stage c = some p ∧ p ≠ .returned := by
  induction h generalizing id c with
  | start => simp [Gateway.empty, Hub.clients, Hub.empty] at hc
  | step e hs ha hstep ih =>
    obtain ⟨⟨p, hp⟩, hother⟩ := Gateway.stage_step hstep
    by_cases he : c = e.client
    · have hid := (Connected.step e hs ha hstep).reachable.shape.userId hc
      subst he
      refine ⟨p, hp, ?_⟩
      rintro rfl
      exact Gateway.stage_ne_returned_of_step hstep (hid ▸ hc) hp
    · rw [hother c he]
      obtain hc | rfl := Gateway.mem_clients_of_step hstep hc
      · exact ih hc
      · exact absurd rfl he

/-- A desktop of `u`. -/
def desk : Client := ⟨0, "u", "desk", .desktop⟩

/-- The desktop again, on a new connection. -/
def deskAgain : Client := ⟨1, "u", "desk", .desktop⟩

/-- Events in a row; `none` when one of them cannot happen. -/
def Gateway.run : Gateway → List ConnEvent → Option Gateway
  | s, [] => some s
  | s, e :: es => (s.step e).bind fun t => t.run es

theorem Connected.run {allowed : Gateway → ConnEvent → Prop} {s t : Gateway} {es : List ConnEvent}
    (h : Connected allowed s) (ha : ∀ s, ∀ e ∈ es, allowed s e) (hrun : s.run es = some t) :
    Connected allowed t := by
  induction es generalizing s with
  | nil =>
    cases hrun
    exact h
  | cons e es ih =>
    obtain ⟨u, hu, hrun⟩ := Option.bind_eq_some_iff.mp hrun
    refine ih (h.step e (ha s e List.mem_cons_self) hu) ?_ hrun
    exact fun s d hd => ha s d (List.mem_cons_of_mem _ hd)

/-- The desktop connects again before its first connection has ended; that one then reports a
disconnection and unregisters. -/
def reconnection : List ConnEvent :=
  [.connect desk, .connect deskAgain, .exit desk .clientDisconnected, .check desk]

/-- The gateway at the second access of `unregister`. -/
def reconnected : Gateway := (Gateway.empty.run reconnection).get (by decide)

theorem connected_reconnected : Connected (fun _ _ => True) reconnected :=
  .run .start (fun _ _ _ => trivial) (Option.some_get _).symm

theorem registered_client_alive_reconnected :
    deskAgain ∈ reconnected.hub.clients "u" ∧ desk ∉ reconnected.hub.clients "u" ∧
      ∃ p, reconnected.stage deskAgain = some p ∧ p ≠ .returned := by
  have hmem : deskAgain ∈ reconnected.hub.clients "u" := by decide
  exact ⟨hmem, by decide, registered_client_alive connected_reconnected hmem⟩

/-- Between two states, no client of another connection that is running has left the hub. -/
def Gateway.SparesOthers (s : Gateway) (c : Client) (t : Gateway) : Prop :=
  ∀ id, ∀ d ∈ s.hub.clients id, d ≠ c → s.stage d = some .running → d ∈ t.hub.clients id

/-- A connection that ends for any reason but a knock-off still has its client in the hub,
and while a user's connection unregisters, none of that user registers that the rest of
it would take along. -/
def Gateway.Orderly (s : Gateway) : ConnEvent → Prop
  | .connect c => ∀ d, d.userId = c.userId → s.stage d ≠ some .flagged ∧
      (d.platform = c.platform → s.stage d ≠ some .leaving)
  | .exit c reason => reason.needUnregister = true → c ∈ s.hub.clients c.userId
  | _ => True

/-- A connection that unregisters has its client in the hub, and nobody else is there once
its flag is set. -/
structure HoldsEntry (s : Gateway) : Prop where
  leaving : ∀ c, s.stage c = some .leaving → c ∈ s.hub.clients c.userId
  flagged : ∀ c, s.stage c = some .flagged → s.hub.clients c.userId = [c]

namespace HoldsEntry

open Gateway

variable {s t : Gateway} {c : Client}

/-- An event keeps this if it does so for the other connections and for its own. -/
theorem move {hub : Hub} {p : Stage}
    (hleaving : ∀ d, d ≠ c → s.stage d = some .leaving → d ∈ hub.clients d.userId)
    (hflagged : ∀ d, d ≠ c → s.stage d = some .flagged → hub.clients d.userId = [d])
    (hown : p = .leaving → c ∈ hub.clients c.userId)
    (halone : p = .flagged → hub.clients c.userId = [c]) : HoldsEntry (s.move hub c p) := by
  constructor
  · intro d hd
    by_cases hdc : d = c
    · subst hdc
      rw [stage_move_self, Option.some.injEq] at hd
      exact hown hd
    · rw [stage_move_of_ne hdc] at hd
      exact hleaving d hdc hd
  · intro d hd
    by_cases hdc : d = c
    · subst hdc
      rw [stage_move_self, Option.some.injEq] at hd
      exact halone hd
    · rw [stage_move_of_ne hdc] at hd
      exact hflagged d hdc hd

theorem connect (h : HoldsEntry s) (ha : Orderly s (.connect c)) (hstep : s.step (.connect c) = some t) :
    HoldsEntry t := by
  obtain ⟨-, rfl⟩ := step_connect.mp hstep
  apply HoldsEntry.move
  · intro d _ hd
    have hmem := h.leaving d hd
    rw [Hub.clients_register]
    split
    · rename_i hid
      rw [hid] at hmem
      refine Hub.mem_insertClient.mpr (.inr ⟨hmem, ?_⟩)
      intro hp
      exact (ha d hid).2 hp hd
    · exact hmem
  · intro d _ hd
    rw [Hub.clients_register, if_neg fun hid => (ha d hid).1 hd]
    exact h.flagged d hd
  · simp
  · simp

theorem exit {reason : TaskExitReason} (h : HoldsEntry s) (ha : Orderly s (.exit c reason))
    (hstep : s.step (.exit c reason) = some t) : HoldsEntry t := by
  obtain ⟨-, rfl⟩ := step_exit.mp hstep
  apply HoldsEntry.move
  · exact fun d _ hd => h.leaving d hd
  · exact fun d _ hd => h.flagged d hd
  · intro hp
    apply ha
    by_contra hreason
    simp [hreason] at hp
  · intro hp
    split at hp <;> cases hp

/-- Two connections of a user that unregister at once are on different platforms, and
neither flag is set. -/
theorem check (h : HoldsEntry s) (hshape : s.hub.Shape) (hstep : s.step (.check c) = some t) : HoldsEntry t := by
  obtain ⟨hc, rfl⟩ := step_check.mp hstep
  have hmem := h.leaving c hc
  obtain ⟨hflag, hhub, d, hd⟩ | ⟨hflag, hhub⟩ := s.hub.unregisterCheck_cases c.userId c.platform
  · rw [hflag, hhub, if_pos rfl]
    rw [hd, List.mem_singleton] at hmem
    subst hmem
    apply HoldsEntry.move
    · exact fun d _ hd => h.leaving d hd
    · exact fun d _ hd => h.flagged d hd
    · simp
    · exact fun _ => hd
  · rw [hflag, if_neg (by decide)]
    apply HoldsEntry.move
    · intro d hdc hd
      have hmem' := h.leaving d hd
      rw [hhub]
      split
      · rename_i hid
        rw [hid] at hmem'
        have hp : d.platform ≠ c.platform := fun hp => hdc (hshape.eq_of_platform hmem hmem' hp)
        simp [hmem', hp]
      · exact hmem'
    · intro d hdc hd
      have hclients := h.flagged d hd
      rw [hhub, if_neg]
      · exact hclients
      · intro hid
        rw [← hid, hclients, List.mem_singleton] at hmem
        exact hdc hmem.symm
    · simp
    · simp

theorem remove (h : HoldsEntry s) (hstep : s.step (.remove c) = some t) : HoldsEntry t := by
  obtain ⟨hc, rfl⟩ := step_remove.mp hstep
  have hown := h.flagged c hc
  apply HoldsEntry.move
  · intro d hdc hd
    have hmem := h.leaving d hd
    rw [Hub.clients_unregisterRemove, if_neg]
    · exact hmem
    · intro hid
      rw [hid, hown, List.mem_singleton] at hmem
      exact hdc hmem
  · intro d hdc hd
    have hclients := h.flagged d hd
    rw [Hub.clients_unregisterRemove, if_neg]
    · exact hclients
    · intro hid
      rw [hid, hown, List.singleton_inj] at hclients
      exact hdc hclients.symm
  · simp
  · simp

end HoldsEntry

theorem Connected.holdsEntry {s : Gateway} (h : Connected Gateway.Orderly s) : HoldsEntry s := by
  induction h with
  | start => exact ⟨fun c hc => (by cases hc), fun c hc => (by cases hc)⟩
  | step e hs ha hstep ih =>
    cases e with
    | connect c => exact ih.connect ha hstep
    | exit c reason => exact ih.exit ha hstep
    | check c => exact ih.check hs.reachable.shape hstep
    | remove c => exact ih.remove hstep

/-- In orderly runs a connection only unregisters itself. -/
theorem unregister_spares_others {s t : Gateway} (hs : Connected Gateway.Orderly s) {c : Client}
    (hstep : s.step (.check c) = some t ∨ s.step (.remove c) = some t) : s.SparesOthers c t := by
  intro id d hd hdc _
  obtain hstep | hstep := hstep
  · obtain ⟨hc, rfl⟩ := Gateway.step_check.mp hstep
    rw [Gateway.hub_move]
    obtain ⟨-, hhub, -⟩ | ⟨-, hhub⟩ := s.hub.unregisterCheck_cases c.userId c.platform
    · rwa [hhub]
    · rw [hhub]
      split
      · rename_i hid
        rw [hid] at hd
        have hp : d.platform ≠ c.platform :=
          fun hp => hdc (hs.reachable.shape.eq_of_platform (hs.holdsEntry.leaving c hc) hd hp)
        simp [hd, hp]
      · exact hd
  · obtain ⟨hc, rfl⟩ := Gateway.step_remove.mp hstep
    rw [Gateway.hub_move, Hub.clients_unregisterRemove, if_neg]
    · exact hd
    · rintro rfl
      rw [hs.holdsEntry.flagged c hc, List.mem_singleton] at hd
      exact hdc hd

/-- The phone of `u`. -/
def handset : Client := ⟨2, "u", "phone", .mobile⟩

/-- The desktop ends while the phone is connected. -/
def deskLeaving : Gateway :=
  (Gateway.empty.run [.connect desk, .connect handset, .exit desk .idleTimeout]).get (by decide)

theorem connected_deskLeaving : Connected Gateway.Orderly deskLeaving := by
  have hdesk : Connected Gateway.Orderly
      (Gateway.empty.move (Hub.empty.register "u" desk) desk .running) := by
    apply Connected.start.step (.connect desk)
    · intro d _
      simp [Gateway.empty]
    · rfl
  have hboth : Connected Gateway.Orderly ((Gateway.empty.move (Hub.empty.register "u" desk) desk
      .running).move ((Hub.empty.register "u" desk).register "u" handset) handset .running) := by
    apply hdesk.step (.connect handset)
    · intro d _
      by_cases hd : d = desk
      · subst hd
        simp
      · simp [Gateway.stage_move_of_ne hd, Gateway.empty]
    · rfl
  apply hboth.step (.exit desk .idleTimeout)
  · intro _
    decide
  · rfl

theorem unregister_spares_others_desk :
    ∃ t, deskLeaving.step (.check desk) = some t ∧ deskLeaving.SparesOthers desk t ∧
      handset ∈ deskLeaving.hub.clients "u" := by
  have hstep : deskLeaving.step (.check desk) =
      some ((deskLeaving.step (.check desk)).get (by decide)) := (Option.some_get _).symm
  exact ⟨_, hstep, unregister_spares_others connected_deskLeaving (.inl hstep), by decide⟩

/-- The first connection takes the second one's client out of the hub. -/
theorem reconnected_client_removed :
    ¬ ∀ s, Connected (fun _ _ => True) s → ∀ c t,
      s.step (.check c) = some t ∨ s.step (.remove c) = some t → s.SparesOthers c t := by
  intro h
  have hspared := h reconnected connected_reconnected desk
    ((reconnected.step (.remove desk)).get (by decide)) (.inr (Option.some_get _).symm)
  have hd := hspared "u" deskAgain (by decide) (by decide) (by decide)
  exact absurd hd (by decide)

end Sandcat
