import Sandcat.WsServer
import Sandcat.Outsider
import Sandcat.History
import Sandcat.PlainView

/-!
# Whose name a message bears

Connections deliver frames, the manager forwards the messages they spell, and the
consumer numbers, stores and pushes what it finds in the queue. The tasks run side by
side and any call may be lost. An observer notes for each task the connection and the
frame that it stems from, and for each of its calls the messages that the stores, the
queue and the clients gain. The identity of the connection is checked when it opens;
a message bears the name that its frame spells.
-/

namespace Sandcat

open Remote

/-- The message of a record. -/
def Payload.message : Payload → List Msg
  | .json msg => [msg]
  | .malformed => []

namespace World

/-- What a call adds to the inbox, the history, the pushes and the queue. -/
def gained (w t : World) : List Msg :=
  (t.mongo.docs.drop w.mongo.docs.length).map (fun p => Msg.tryFrom p.2) ++
    t.pg.messages.drop w.pg.messages.length ++
    (t.deliveries.drop w.deliveries.length).map (fun d => d.2.2) ++
    (t.queue.drop w.queue.length).flatMap Payload.message

/-- All that is added bears one name. -/
def Bears (name : UserId) (w t : World) : Prop := ∀ m ∈ gained w t, m.senderId = name

/-- The part of the state in which messages are kept. -/
def shown (w : World) :
    List (String × Document) × List Msg × List (Addr × Client × Msg) × List Payload :=
  (w.mongo.docs, w.pg.messages, w.deliveries, w.queue)

variable {name : UserId} {w t : World}

theorem bears_of_shown (h : t.shown = w.shown) : Bears name w t := by
  obtain ⟨hdocs, hmessages, hdeliveries, hqueue⟩ : t.mongo.docs = w.mongo.docs ∧
      t.pg.messages = w.pg.messages ∧ t.deliveries = w.deliveries ∧ t.queue = w.queue := by
    simpa [shown] using h
  simp [Bears, gained, hdocs, hmessages, hdeliveries, hqueue]

theorem bears_refl (w : World) : Bears name w w := bears_of_shown rfl

theorem seesDocs_shown : SeesDocs shown := by
  intro w mongo h
  rw [shown, h]
  rfl

end World

namespace Hub

variable {hub : Hub} {msg : Msg} {p : Client × Msg}

theorem mem_sendMsgToClients {cs : List Client} (hp : p ∈ sendMsgToClients cs msg) : p.2 = msg := by
  unfold sendMsgToClients at hp
  split at hp <;> simp at hp
  · rw [hp]
  · obtain rfl | rfl := hp <;> rfl

theorem mem_sendToSelf {id : UserId} (hp : p ∈ hub.sendToSelf id msg) : p.2 = msg := by
  unfold sendToSelf at hp
  split at hp
  · cases hp
  · dsimp only at hp
    split at hp
    · rw [List.mem_singleton.mp hp]
    · cases hp

/-- What the clients get bears the name of the message. -/
theorem sender_sendSingleMsg {objId : UserId} (hp : p ∈ hub.sendSingleMsg objId msg) :
    p.2.senderId = msg.senderId := by
  obtain hp | hp := List.mem_append.mp hp
  · split at hp
    · rw [mem_sendMsgToClients hp]
    · cases hp
  · rw [mem_sendToSelf hp]

theorem sender_sendMembers {members : List GroupMemSeq} (hp : p ∈ hub.sendMembers members msg) :
    p.2.senderId = msg.senderId := by
  induction members generalizing msg with
  | nil => cases hp
  | cons mem members ih =>
    unfold sendMembers at hp
    split at hp
    · obtain hp | hp := List.mem_append.mp hp
      · rw [mem_sendMsgToClients hp]
      · have hrest := ih hp
        exact hrest
    · exact ih hp

theorem sender_sendGroup {members : List GroupMemSeq} (hp : p ∈ hub.sendGroup members msg) :
    p.2.senderId = msg.senderId := by
  obtain hp | hp := List.mem_append.mp hp
  · rw [mem_sendToSelf hp]
  · have hmembers := sender_sendMembers hp
    exact hmembers

end Hub

open World

section Bears

variable {R : World → Prop} {name : UserId} {cfg : Config}

theorem bears_frame {α : Type} {m : M α} (hm : Prog.Frame shown m) :
    Prog.Guarantees R (Bears name) m fun _ => True :=
  Prog.guarantees_of_frame (fun _ _ => bears_of_shown) hm

/-- An operation that adds no document. -/
theorem bears_mongoCall {α : Type} {g : Mongo → Except Error (α × Mongo)}
    (hg : ∀ m a m', g m = .ok (a, m') → m'.docs.length ≤ m.docs.length) :
    Prog.Guarantees R (Bears name) (mongoCall g) fun _ => True := by
  apply Prog.guarantees_request
  intro w a t _ h
  obtain ⟨p, hr, hp⟩ := eq_ok_of_map h
  cases hp
  have hdrop := List.drop_eq_nil_of_le (hg _ _ _ hr)
  refine ⟨?_, trivial⟩
  simp [Bears, gained, hdrop]

theorem bears_insertOne {coll : String} {m : Msg} (hm : m.senderId = name) :
    Prog.Guarantees R (Bears name) (mongoCall (Mongo.insertOne coll (toDoc m))) fun _ => True := by
  apply Prog.guarantees_request
  intro w a t _ h
  obtain ⟨p, hr, hp⟩ := eq_ok_of_map h
  cases hp
  unfold Mongo.insertOne at hr
  split at hr
  · cases hr
  · cases hr
    refine ⟨?_, trivial⟩
    simp [Bears, gained, Msg.stored, hm]

namespace MsgRecBox

open HybridShardedMsgBox

theorem bears_saveMessage {msg : Msg} (hmsg : msg.senderId = name) :
    Prog.Guarantees R (Bears name) (saveMessage cfg msg) fun _ => True := by
  unfold saveMessage
  cases cfg.box with
  | plain => exact bears_insertOne hmsg
  | sharded n =>
    apply Prog.guarantees_bind (bears_frame (frame_userCollection shown _ _ _ _))
    intro collName _
    apply Prog.guarantees_bind (bears_frame (frame_getCollection seesDocs_shown _))
    exact fun collection _ => bears_insertOne hmsg

theorem bears_saveGroupMsg {msg : Msg} {members : List GroupMemSeq} (hmsg : msg.senderId = name) :
    Prog.Guarantees R (Bears name) (saveGroupMsg cfg msg members) fun _ => True := by
  refine Consumer.guarantees_saveCopies seesDocs_shown (fun _ _ => bears_of_shown) fun coll m hm => ?_
  apply bears_insertOne
  rw [← hmsg]
  exact (Save.of_mem_copies (s := .group msg members) hm).2.1

theorem length_deleteOne (coll serverId : String) (m : Mongo) :
    (m.deleteOne coll serverId).2.docs.length ≤ m.docs.length := by
  unfold Mongo.deleteOne
  dsimp only
  split
  · exact List.length_eraseP_le
  · exact le_refl _

theorem bears_deleteFrom (messageId : String) (colls : List String) :
    Prog.Guarantees R (Bears name) (deleteFrom messageId colls) fun _ => True := by
  induction colls with
  | nil => trivial
  | cons coll colls ih =>
    apply Prog.guarantees_bind (bears_frame (frame_getCollection seesDocs_shown _))
    intro collection _
    apply Prog.guarantees_bind (P := fun _ => True)
    · apply bears_mongoCall
      intro m a m' h
      have hm : (m.deleteOne collection messageId).2 = m' := congrArg Prod.snd (Except.ok.inj h)
      exact hm ▸ length_deleteOne _ _ _
    · intro deletedCount _
      split
      · trivial
      · exact ih

theorem bears_deleteMessage (messageId : String) :
    Prog.Guarantees R (Bears name) (deleteMessage cfg messageId) fun _ => True := by
  unfold deleteMessage
  cases cfg.box with
  | plain =>
    apply bears_mongoCall
    intro m a m' h
    cases h
    exact length_deleteOne _ _ _
  | sharded n =>
    have hactive : Prog.Guarantees R (Bears name)
        (mongoCall fun m => .ok (m.activeCollections, m)) fun _ => True := by
      apply bears_mongoCall
      intro m a m' h
      cases h
      exact le_refl _
    exact Prog.guarantees_bind hactive fun active _ => bears_deleteFrom _ _

theorem length_setRead (coll : String) (u : UserId) (seqs : List Int) (m : Mongo) :
    (m.setRead coll u seqs).docs.length ≤ m.docs.length := by
  simp [Mongo.setRead]

theorem bears_msgRead (u : UserId) (seqs : List Int) :
    Prog.Guarantees R (Bears name) (msgRead cfg u seqs) fun _ => True := by
  have hset : ∀ coll, Prog.Guarantees R (Bears name)
      (mongoCall fun m => .ok ((), m.setRead coll u seqs)) fun _ => True := by
    intro coll
    apply bears_mongoCall
    intro m a m' h
    cases h
    exact length_setRead _ _ _ _
  unfold msgRead
  cases cfg.box with
  | plain =>
    dsimp only [MsgBox.msgRead]
    split
    · trivial
    · exact hset _
  | sharded n =>
    dsimp only [HybridShardedMsgBox.msgRead]
    split
    · trivial
    · apply Prog.guarantees_bind (bears_frame (frame_userRange shown _ _ _))
      intro range _
      apply Prog.guarantees_bind (bears_frame (frame_nowSecs shown))
      intro now _
      apply Prog.guarantees_each
      intro collName _
      apply Prog.guarantees_bind
        (Prog.guarantees_attempt (bears_frame (frame_getCollection seesDocs_shown _)))
      intro r _
      cases r with
      | ok collection => exact hset collection
      | error e => trivial

end MsgRecBox

/-- A push hands a message to clients. -/
theorem bears_pushMsg {msg : Msg} {members : List GroupMemSeq} (hmsg : msg.senderId = name)
    (msgType : MsgType2) :
    Prog.Guarantees R (Bears name) (Consumer.pushMsg msgType msg members) fun _ => True := by
  have hsends : ∀ (w : World) addr (sends : List (Client × Msg)), (∀ p ∈ sends, p.2.senderId = name) →
      Bears name w { w with deliveries := w.deliveries ++ sends.map (addr, ·) } := by
    intro w addr sends hsends m hm
    simp [gained] at hm
    obtain ⟨c, hc⟩ := hm
    exact hsends (c, m) hc
  have hkept : ∀ w t : World, shown t = shown w → Bears name w t := fun _ _ => bears_of_shown
  cases msgType with
  | single =>
    refine Consumer.guarantees_push (fun _ _ => rfl) hkept ?_ _
    intro w addr hub _
    exact hsends w addr _ fun p hp => (Hub.sender_sendSingleMsg hp).trans hmsg
  | group =>
    refine Consumer.guarantees_push (fun _ _ => rfl) hkept ?_ _
    intro w addr hub _
    exact hsends w addr _ fun p hp => (Hub.sender_sendGroup hp).trans hmsg

theorem bears_history {msg : Msg} (hmsg : msg.senderId = name) :
    Prog.Guarantees R (Bears name) (Db.saveMessage msg) fun _ => True := by
  apply Prog.guarantees_bind (P := fun _ => True)
  · apply Prog.guarantees_request
    intro w a t _ h
    cases h
    refine ⟨?_, trivial⟩
    simp [Bears, gained, hmsg]
  · exact fun _ _ => trivial

namespace Consumer

variable {msg : Msg} {mt : MsgType} {members : List GroupMemSeq}

theorem bears_saveMaxSeqBatch (us : List UserId) :
    Prog.Guarantees R (Bears name) (Db.saveMaxSeqBatch cfg us) fun _ => True := by
  apply Prog.guarantees_request
  intro w a t _ h
  cases h
  refine ⟨bears_of_shown ?_, trivial⟩
  simp only [shown, Postgres.messages_saveMaxSeqBatch]

theorem bears_sendToDb (hmsg : msg.senderId = name) (msgType : MsgType2) (need : Bool) :
    Prog.Guarantees R (Bears name) (sendToDb cfg msg msgType need members) fun _ => True := by
  cases msgType with
  | single =>
    apply Prog.guarantees_bind (P := fun _ => True)
    · split
      · exact guarantees_spawnLogged (bears_history hmsg)
      · trivial
    · intro db _
      apply Prog.guarantees_bind (P := fun _ => True)
      · apply guarantees_spawnLogged
        split
        · exact MsgRecBox.bears_deleteMessage _
        · exact MsgRecBox.bears_saveMessage hmsg
      · intro msgRecBox _
        exact Prog.guarantees_bind (guarantees_orRaise _) fun _ _ => guarantees_orRaise _
  | group =>
    exact guarantees_handleGroupMessage bears_saveMaxSeqBatch (bears_history hmsg)
      (MsgRecBox.bears_saveGroupMsg hmsg)

theorem sender_numberReceiver (need : Bool) :
    Prog.Guarantees R (fun _ _ => True) (numberReceiver cfg need msg)
      fun m => m.senderId = msg.senderId := by
  unfold numberReceiver
  split
  · exact Prog.guarantees_bind (Prog.guarantees_any _) fun curSeq _ => rfl
  · rfl

/-- The numbering changes the receive number of a message and keeps nothing of it. -/
theorem bears_numberMsg : Prog.Guarantees R (Bears name) (numberMsg cfg mt msg)
    fun p => p.1.senderId = msg.senderId := by
  have hframe : Prog.Frame shown (numberMsg cfg mt msg) :=
    fun _ => KeptByNumbering.numberMsg ⟨fun _ _ h => h, fun _ _ h => h, fun _ _ h => h⟩ mt msg
  have hsender : Prog.Guarantees R (fun _ _ => True) (numberMsg cfg mt msg)
      fun p => p.1.senderId = msg.senderId := by
    apply Prog.guarantees_bind (Prog.guarantees_any _)
    intro _ _
    apply Prog.guarantees_bind (sender_numberReceiver _)
    intro m hm
    exact Prog.guarantees_bind (Prog.guarantees_any _) fun members _ => hm
  apply Prog.guarantees_mono (Prog.guarantees_and (bears_frame hframe) hsender)
  · exact fun _ _ _ h => h.1
  · exact fun p h => h.2

theorem bears_handleMsgRead :
    Prog.Guarantees R (Bears name) (handleMsgRead cfg msg) fun _ => True := by
  unfold handleMsgRead
  split
  · exact MsgRecBox.bears_msgRead _ _
  · trivial

/-- Whatever a record leads to bears the name that stands in the record. -/
theorem bears_handleMsg (payload : Payload) (h : ∀ m ∈ payload.message, m.senderId = name) :
    Prog.Guarantees R (Bears name) (handleMsg cfg payload) fun _ => True := by
  revert h
  apply handleMsg_cases (P := fun payload m => (∀ m ∈ payload.message, m.senderId = name) →
    Prog.Guarantees R (Bears name) m fun _ => True) cfg
  · exact fun _ _ => trivial
  · exact fun _ _ _ _ => trivial
  · exact fun _ _ _ => bears_handleMsgRead
  · intro msg mt _ _ h
    have hmsg := h msg (List.mem_singleton_self msg)
    apply Prog.guarantees_bind bears_numberMsg
    intro p hp
    exact guarantees_dispatch (bears_sendToDb (hp.trans hmsg) _) (bears_pushMsg (hp.trans hmsg) _)

end Consumer

/-- The chat service publishes the message under the name it comes with. -/
theorem bears_sendMsg {msg : Msg} (hmsg : msg.senderId = name) (nanoid : String) :
    Prog.Guarantees R (Bears name) (Producer.sendMsg nanoid ⟨some msg⟩) fun _ => True := by
  apply Prog.guarantees_bind (bears_frame (Prog.frame_update fun _ => rfl))
  intro now _
  have hstamp : (Producer.stamp nanoid now msg).senderId = name := by
    rw [← hmsg]
    unfold Producer.stamp
    split <;> rfl
  have hpublish : Prog.Guarantees R (Bears name)
      (Producer.publish (.json (Producer.stamp nanoid now msg))) fun _ => True := by
    apply Prog.guarantees_update
    intro w _
    refine ⟨?_, trivial⟩
    simp [Bears, gained, Payload.message, hstamp]
  exact Prog.guarantees_bind (Prog.guarantees_attempt hpublish) fun err _ => trivial

namespace Manager

variable {text : Error → String} {nanoid : String} {message : Msg}

theorem bears_processMessage (h : message.senderId = name) :
    Prog.Guarantees R (Bears name) (processMessage cfg text nanoid message)
      fun r => r.senderId = name := by
  have hincr : Prog.Frame shown (Cache.incrSendSeq cfg message.senderId) := by
    rw [Cache.incrSendSeq, Cache.evalSingle_eq]
    exact Prog.frame_update fun _ => rfl
  apply Prog.guarantees_bind (Prog.guarantees_attempt (bears_frame hincr))
  intro numbered _
  cases numbered with
  | error e => exact h
  | ok p =>
    have hsend : Prog.Guarantees R (Bears name)
        (Producer.sendMsg nanoid ⟨some { message with sendSeq := p.1 }⟩) fun _ => True := by
      apply bears_sendMsg
      exact h
    apply Prog.guarantees_bind (Prog.guarantees_attempt hsend)
    intro sent _
    cases sent with
    | error e => exact h
    | ok response =>
      change (if response.err = "" then _ else _ : Msg).senderId = name
      split <;> exact h

/-- A turn of the manager: the record, and the reply to the clients of the sender. -/
theorem bears_turn (h : message.senderId = name) (addr : Addr) :
    Prog.Guarantees R (Bears name) (turn cfg text addr nanoid message) fun _ => True := by
  apply Prog.guarantees_bind (bears_processMessage h)
  intro r hr
  apply Prog.guarantees_update
  intro w _
  refine ⟨?_, trivial⟩
  intro m hm
  cases hg : w.gateways addr with
  | none => simp [gained, hg] at hm
  | some hub =>
    simp only [gained, hg] at hm
    simp at hm
    obtain ⟨c, hc⟩ := hm
    rw [← hr]
    exact Hub.sender_sendSingleMsg hc

end Manager

end Bears

/-- The connection and the frame that a task stems from. -/
structure Origin where
  subject : UserId
  frame : Frame
  deriving DecidableEq

/-- Connections, the channel to the manager, the tasks of the manager and the consumer over the
shared state, and what the observer has noted. -/
structure Relay (ι κ : Type) where
  world : World
  subject : κ → Option UserId
  pending : List (Origin × Msg)
  procs : ι → M Unit
  origin : ι → Option Origin
  published : List (Origin × Payload)
  caused : List (Origin × Msg)

namespace Relay

variable {ι κ : Type}

def idle (w : World) : Relay ι κ := ⟨w, fun _ => none, [], fun _ => .ret (), fun _ => none, [], []⟩

/-- A connection is accepted. -/
def connect [DecidableEq κ] (S : Relay ι κ) (c : κ) (u : UserId) : Relay ι κ :=
  { S with subject := Function.update S.subject c (some u) }

/-- The receive loop of a connection takes a frame. -/
def deliver [DecidableEq κ] (S : Relay ι κ) (c : κ) (u : UserId) (frame : Frame)
    (outcome : Option Msg × Bool) : Relay ι κ :=
  { S with
    subject := if outcome.2 then S.subject else Function.update S.subject c none
    pending := S.pending ++ outcome.1.toList.map fun msg => (⟨u, frame⟩, msg) }

variable [DecidableEq ι]

/-- A task begins that stems from a frame. -/
def launch (S : Relay ι κ) (i : ι) (o : Origin) (m : M Unit) : Relay ι κ :=
  { S with procs := Function.update S.procs i m, origin := Function.update S.origin i (some o) }

/-- A call of a task. -/
def advance (S : Relay ι κ) (i : ι) (m : M Unit) (t : World) : Relay ι κ :=
  { S with
    world := t
    procs := Function.update S.procs i m
    published := S.published ++ (S.origin i).toList.flatMap fun o =>
      (t.queue.drop S.world.queue.length).map fun payload => (o, payload)
    caused := S.caused ++ (S.origin i).toList.flatMap fun o =>
      (gained S.world t).map fun msg => (o, msg) }

/-- The next call of a task, undisturbed. -/
def tick (S : Relay ι κ) (i : ι) : Relay ι κ :=
  match Prog.step (S.procs i) S.world with
  | some (m, t) => S.advance i m t
  | none => S

end Relay

/-- The runs. The channel is emptied from its front; records are handled in any order and any
number of times; everything else may do anything to the shared state. -/
inductive Relayed (lib : Libraries) (cfg : Config) (text : Error → String) (jwtSecret : String)
    {ι κ : Type} [DecidableEq ι] [DecidableEq κ] : Relay ι κ → Prop where
  | start (w : World) : Relayed lib cfg text jwtSecret (.idle w)
  | connect {S : Relay ι κ} {claims : Claims} (c : κ) (token userId : String) :
      Relayed lib cfg text jwtSecret S →
      WsServer.verifyToken lib token userId jwtSecret = .ok claims →
      Relayed lib cfg text jwtSecret (S.connect c claims.sub)
  | frame {S : Relay ι κ} {u : UserId} (c : κ) (frame : Frame) (sent : Bool) :
      Relayed lib cfg text jwtSecret S → S.subject c = some u →
      Relayed lib cfg text jwtSecret (S.deliver c u frame (WsServer.receive lib sent frame))
  | turn {S : Relay ι κ} {o : Origin} {msg : Msg} {pending : List (Origin × Msg)} (i : ι)
      (addr : Addr) (nanoid : String) : Relayed lib cfg text jwtSecret S →
      (S.procs i).finished = true → S.pending = (o, msg) :: pending →
      Relayed lib cfg text jwtSecret
        ({ S with pending }.launch i o (Manager.turn cfg text addr nanoid msg))
  | consume {S : Relay ι κ} {o : Origin} {payload : Payload} (i : ι) :
      Relayed lib cfg text jwtSecret S → (S.procs i).finished = true →
      (o, payload) ∈ S.published →
      Relayed lib cfg text jwtSecret (S.launch i o (Consumer.handleMsg cfg payload))
  | call {S : Relay ι κ} {m : M Unit} {t : World} (i : ι) : Relayed lib cfg text jwtSecret S →
      Prog.Calls (S.procs i) S.world m t → Relayed lib cfg text jwtSecret (S.advance i m t)
  | elsewhere {S : Relay ι κ} (t : World) : Relayed lib cfg text jwtSecret S →
      Relayed lib cfg text jwtSecret { S with world := t }

namespace Relay

variable {ι κ : Type}

/-- A frame came over a connection whose token was accepted, and spells a message with a name. -/
structure Signed (lib : Libraries) (jwtSecret : String) (o : Origin) (name : UserId) : Prop where
  accepted : ∃ token, lib.decode token jwtSecret = .ok ⟨o.subject⟩
  spelled : (WsServer.spelled lib o.frame).map Msg.senderId = some name

/-- The invariant of the runs: whatever stems from a frame bears the name that it spells. -/
structure Trusted (lib : Libraries) (jwtSecret : String) (S : Relay ι κ) : Prop where
  subjects : ∀ c u, S.subject c = some u → ∃ token, lib.decode token jwtSecret = .ok ⟨u⟩
  pending : ∀ p ∈ S.pending, Signed lib jwtSecret p.1 p.2.senderId
  tasks : ∀ i o, S.origin i = some o → ∃ name, Signed lib jwtSecret o name ∧
    Prog.Guarantees (fun _ => True) (Bears name) (S.procs i) fun _ => True
  published : ∀ p ∈ S.published, ∃ name, Signed lib jwtSecret p.1 name ∧
    ∀ m ∈ p.2.message, m.senderId = name
  caused : ∀ p ∈ S.caused, Signed lib jwtSecret p.1 p.2.senderId

variable {lib : Libraries} {jwtSecret : String} {S : Relay ι κ}

theorem trusted_idle (w : World) : (idle w : Relay ι κ).Trusted lib jwtSecret where
  subjects c u h := by cases h
  pending p hp := by cases hp
  tasks i o h := by cases h
  published p hp := by cases hp
  caused p hp := by cases hp

theorem Trusted.connect [DecidableEq κ] (h : S.Trusted lib jwtSecret) (c : κ) {u : UserId}
    (hu : ∃ token, lib.decode token jwtSecret = .ok ⟨u⟩) : (S.connect c u).Trusted lib jwtSecret where
  subjects d v hd := by
    by_cases hc : d = c
    · subst hc
      simp only [Relay.connect, Function.update_self, Option.some.injEq] at hd
      exact hd ▸ hu
    · simp only [Relay.connect, Function.update_of_ne hc] at hd
      exact h.subjects d v hd
  pending := h.pending
  tasks := h.tasks
  published := h.published
  caused := h.caused

theorem Trusted.deliver [DecidableEq κ] (h : S.Trusted lib jwtSecret) {c : κ} {u : UserId}
    (hc : S.subject c = some u) (frame : Frame) (sent : Bool) :
    (S.deliver c u frame (WsServer.receive lib sent frame)).Trusted lib jwtSecret where
  subjects d v hd := by
    simp only [Relay.deliver] at hd
    split at hd
    · exact h.subjects d v hd
    · by_cases he : d = c
      · subst he
        rw [Function.update_self] at hd
        cases hd
      · rw [Function.update_of_ne he] at hd
        exact h.subjects d v hd
  pending p hp := by
    obtain hp | hp := List.mem_append.mp hp
    · exact h.pending p hp
    · obtain ⟨msg, hmsg, rfl⟩ := List.mem_map.mp hp
      rw [Option.mem_toList] at hmsg
      refine ⟨h.subjects c u hc, ?_⟩
      rw [WsServer.spelled_of_receive hmsg]
      rfl
  tasks := h.tasks
  published := h.published
  caused := h.caused

variable [DecidableEq ι]

theorem Trusted.launch (h : S.Trusted lib jwtSecret) (i : ι) {o : Origin} {m : M Unit}
    (hm : ∃ name, Signed lib jwtSecret o name ∧
      Prog.Guarantees (fun _ => True) (Bears name) m fun _ => True) :
    (S.launch i o m).Trusted lib jwtSecret where
  subjects := h.subjects
  pending := h.pending
  tasks j o' hj := by
    by_cases he : j = i
    · subst he
      simp only [Relay.launch, Function.update_self, Option.some.injEq] at hj ⊢
      exact hj ▸ hm
    · simp only [Relay.launch, Function.update_of_ne he] at hj ⊢
      exact h.tasks j o' hj
  published := h.published
  caused := h.caused

/-- A call of a task adds messages under the name of its frame. -/
theorem Trusted.advance (h : S.Trusted lib jwtSecret) (i : ι) {m : M Unit} {t : World}
    (hcall : Prog.Calls (S.procs i) S.world m t) : (S.advance i m t).Trusted lib jwtSecret := by
  have hstep : ∀ o, S.origin i = some o → ∃ name, Signed lib jwtSecret o name ∧
      Bears name S.world t ∧ Prog.Guarantees (fun _ => True) (Bears name) m fun _ => True := by
    intro o ho
    obtain ⟨name, hsigned, hg⟩ := h.tasks i o ho
    exact ⟨name, hsigned, Prog.guarantees_calls bears_refl hcall hg trivial⟩
  refine ⟨h.subjects, h.pending, ?_, ?_, ?_⟩
  · intro j o hj
    by_cases he : j = i
    · subst he
      obtain ⟨name, hsigned, -, hg⟩ := hstep o hj
      refine ⟨name, hsigned, ?_⟩
      simpa only [Relay.advance, Function.update_self] using hg
    · simp only [Relay.advance, Function.update_of_ne he]
      exact h.tasks j o hj
  · intro p hp
    obtain hp | hp := List.mem_append.mp hp
    · exact h.published p hp
    · obtain ⟨o, ho, hp⟩ := List.mem_flatMap.mp hp
      obtain ⟨payload, hpayload, rfl⟩ := List.mem_map.mp hp
      obtain ⟨name, hsigned, hbears, -⟩ := hstep o (Option.mem_toList.mp ho)
      refine ⟨name, hsigned, fun m hm => hbears m ?_⟩
      exact List.mem_append_right _ (List.mem_flatMap.mpr ⟨payload, hpayload, hm⟩)
  · intro p hp
    obtain hp | hp := List.mem_append.mp hp
    · exact h.caused p hp
    · obtain ⟨o, ho, hp⟩ := List.mem_flatMap.mp hp
      obtain ⟨msg, hmsg, rfl⟩ := List.mem_map.mp hp
      obtain ⟨name, hsigned, hbears, -⟩ := hstep o (Option.mem_toList.mp ho)
      rwa [hbears msg hmsg]

end Relay

theorem Relayed.trusted {lib : Libraries} {cfg : Config} {text : Error → String}
    {jwtSecret : String} {ι κ : Type} [DecidableEq ι] [DecidableEq κ] {S : Relay ι κ}
    (h : Relayed lib cfg text jwtSecret S) : S.Trusted lib jwtSecret := by
  induction h with
  | start w => exact Relay.trusted_idle w
  | connect c token userId _ hverify ih =>
    exact ih.connect c ⟨token, (WsServer.verifyToken_ok.mp hverify).1⟩
  | frame c frame sent _ hc ih => exact ih.deliver hc frame sent
  | @turn S o msg pending i addr nanoid _ _ hpending ih =>
    have hrest : Relay.Trusted lib jwtSecret { S with pending } :=
      ⟨ih.subjects, fun p hp => ih.pending p (hpending ▸ List.mem_cons_of_mem _ hp), ih.tasks,
        ih.published, ih.caused⟩
    have hsigned := ih.pending (o, msg) (hpending ▸ List.mem_cons_self)
    exact hrest.launch i ⟨_, hsigned, Manager.bears_turn rfl addr⟩
  | consume i _ _ hmem ih =>
    obtain ⟨name, hsigned, hname⟩ := ih.published _ hmem
    exact ih.launch i ⟨name, hsigned, Consumer.bears_handleMsg _ hname⟩
  | call i _ hcall ih => exact ih.advance i hcall
  | elsewhere t _ ih => exact ⟨ih.subjects, ih.pending, ih.tasks, ih.published, ih.caused⟩

/-- A frame in the name of the user who is connected. -/
def OwnName (lib : Libraries) (o : Origin) : Prop :=
  (WsServer.spelled lib o.frame).map Msg.senderId = some o.subject

/-- Whatever stems from a frame of an accepted connection bears the name that the frame spells.
It is the name of the connected user exactly if the frame spells that name, and two frames
lead to messages with one name exactly if they spell the same. -/
theorem messages_bear_spelled_name {lib : Libraries} {cfg : Config} {text : Error → String}
    {jwtSecret : String} {ι κ : Type} [DecidableEq ι] [DecidableEq κ] {S : Relay ι κ}
    (h : Relayed lib cfg text jwtSecret S) :
    (∀ p ∈ S.pending ++ S.caused, Relay.Signed lib jwtSecret p.1 p.2.senderId ∧
      (p.2.senderId = p.1.subject ↔ OwnName lib p.1)) ∧
    ∀ p ∈ S.pending ++ S.caused, ∀ q ∈ S.pending ++ S.caused,
      (p.2.senderId = q.2.senderId ↔ (WsServer.spelled lib p.1.frame).map Msg.senderId =
        (WsServer.spelled lib q.1.frame).map Msg.senderId) ∧
      (OwnName lib p.1 → OwnName lib q.1 → p.1.subject ≠ q.1.subject →
        p.2.senderId ≠ q.2.senderId) := by
  have hsigned : ∀ p ∈ S.pending ++ S.caused, Relay.Signed lib jwtSecret p.1 p.2.senderId := by
    intro p hp
    obtain hp | hp := List.mem_append.mp hp
    · exact h.trusted.pending p hp
    · exact h.trusted.caused p hp
  constructor
  · intro p hp
    refine ⟨hsigned p hp, ?_⟩
    rw [OwnName, (hsigned p hp).spelled, Option.some.injEq]
  · intro p hp q hq
    rw [OwnName, OwnName, (hsigned p hp).spelled, (hsigned q hq).spelled]
    simp only [Option.some.injEq, true_and]
    intro hown hown' hne he
    exact hne (hown.symm.trans (he.trans hown'))

section Runs

variable {lib : Libraries} {cfg : Config} {text : Error → String} {jwtSecret : String} {ι κ : Type}
  [DecidableEq ι] [DecidableEq κ] {S : Relay ι κ}

theorem Relayed.tick (h : Relayed lib cfg text jwtSecret S) (i : ι) :
    Relayed lib cfg text jwtSecret (S.tick i) := by
  unfold Relay.tick
  cases hstep : Prog.step (S.procs i) S.world with
  | none => exact h
  | some r => exact h.call i (Prog.calls_of_step hstep)

/-- The manager takes the first message of the channel through its turn. -/
def Relay.manage (S : Relay ι κ) (cfg : Config) (text : Error → String) (i : ι) (nanoid : String) :
    Relay ι κ :=
  match S.pending with
  | [] => S
  | (o, msg) :: pending =>
    [i, i, i, i].foldl Relay.tick
      ({ S with pending }.launch i o (Manager.turn cfg text 0 nanoid msg))

theorem Relayed.manage (h : Relayed lib cfg text jwtSecret S) {i : ι}
    (hi : (S.procs i).finished = true) (nanoid : String) :
    Relayed lib cfg text jwtSecret (S.manage cfg text i nanoid) := by
  unfold Relay.manage
  split
  · exact h
  · rename_i o msg pending hpending
    exact (((((h.turn i 0 nanoid hi hpending).tick i).tick i).tick i).tick i)

end Runs

/-- A frame with the bytes of a message from `a` to `b`. -/
def bytesFromA : Bincode.Bytes := [1, 97, 1, 98, 0, 0, 0, 0, 0, 0, 0, 0, 0, 0, 0, 0, 0, 0, 0]

/-- The tokens of `m` and `a`, and the message of the frame. -/
def twoTokens : Libraries where
  decode token _ :=
    if token = "token of m" then .ok ⟨"m"⟩
    else if token = "token of a" then .ok ⟨"a"⟩
    else .error .invalidToken
  fromStr _ := none
  decodeFromSlice b := if b = bytesFromA then some { senderId := "a", receiverId := "b" } else none

def fromA : Frame := .binary bytesFromA

/-- Both `m` and `a` deliver the frame. -/
def bothDeliver : Relay Unit Bool :=
  let S := ((Relay.idle World.empty).connect true "m").connect false "a"
  (S.deliver true "m" fromA (WsServer.receive twoTokens true fromA)).deliver false "a" fromA
    (WsServer.receive twoTokens true fromA)

/-- The manager has forwarded both messages. -/
def bothForwarded : Relay Unit Bool :=
  (bothDeliver.manage .onePlain (fun _ => "") () "id 1").manage .onePlain (fun _ => "") () "id 2"

theorem bothForwarded_relayed :
    Relayed twoTokens .onePlain (fun _ => "") "secret" bothForwarded := by
  have hm : Relayed twoTokens .onePlain (fun _ => "") "secret"
      ((Relay.idle World.empty : Relay Unit Bool).connect true "m") :=
    (Relayed.start World.empty).connect true "token of m" "m" rfl
  have ha : Relayed twoTokens .onePlain (fun _ => "") "secret"
      (((Relay.idle World.empty : Relay Unit Bool).connect true "m").connect false "a") :=
    hm.connect false "token of a" "a" rfl
  exact (((ha.frame true fromA true rfl).frame false fromA true rfl).manage rfl "id 1").manage rfl
    "id 2"

theorem messages_bear_spelled_name_both :
    bothForwarded.caused.map (fun p => (p.1.subject, p.2.senderId)) = [("m", "a"), ("a", "a")] ∧
      ∀ p ∈ bothForwarded.pending ++ bothForwarded.caused,
        Relay.Signed twoTokens "secret" p.1 p.2.senderId ∧
          (p.2.senderId = p.1.subject ↔ OwnName twoTokens p.1) :=
  ⟨by decide, (messages_bear_spelled_name bothForwarded_relayed).1⟩

/-- `m` sends in the name of `a`, and so do two users. -/
theorem forged_name :
    (¬ ∀ S : Relay Unit Bool, Relayed twoTokens .onePlain (fun _ => "") "secret" S →
      ∀ p ∈ S.caused, p.2.senderId = p.1.subject) ∧
    ¬ ∀ S : Relay Unit Bool, Relayed twoTokens .onePlain (fun _ => "") "secret" S →
      ∀ p ∈ S.caused, ∀ q ∈ S.caused, p.1.subject ≠ q.1.subject → p.2.senderId ≠ q.2.senderId := by
  have hpairs : bothForwarded.caused.map (fun p => (p.1.subject, p.2.senderId)) =
      [("m", "a"), ("a", "a")] := by decide
  obtain ⟨p, q, hcaused⟩ : ∃ p q, bothForwarded.caused = [p, q] :=
    List.length_eq_two.mp (by simpa using congrArg List.length hpairs)
  simp only [hcaused, List.map_cons, List.map_nil, List.cons.injEq, Prod.mk.injEq] at hpairs
  obtain ⟨⟨hp, hp'⟩, ⟨hq, hq'⟩, -⟩ := hpairs
  constructor
  · intro h
    have hname := h bothForwarded bothForwarded_relayed p (by simp [hcaused])
    rw [hp, hp'] at hname
    exact absurd hname (by decide)
  · intro h
    refine h bothForwarded bothForwarded_relayed p (by simp [hcaused]) q (by simp [hcaused]) ?_ ?_
    · rw [hp, hq]
      decide
    · rw [hp', hq']

end Sandcat
