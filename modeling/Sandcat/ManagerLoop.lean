import Sandcat.WsServer
import Sandcat.Counters
import Mathlib.Data.List.Infix

/-!
# The loop of the gateway's manager

The receive tasks of all connections put their messages into one bounded channel. The manager takes one
after the other, draws the number of its sender, sends the message to the chat service and answers. Any
call may fail, with or without its effect, and other services draw numbers and publish in between.
-/

namespace Sandcat

/-- The capacity of the channel. -/
def channelCapacity : Nat := 1024

/-- A message of a connection as it was handed to the channel, and as it is now. -/
structure InHand (ι : Type) where
  conn : ι
  origin : Msg
  message : Msg

/-- Where the manager stands: it waits for a message, has one to number, has one to send, has one to
answer. The last comes with the stamped message if the chat service has reported success. -/
inductive LoopStage (ι : Type) where
  | waiting
  | numbering (m : InHand ι)
  | sending (m : InHand ι)
  | answering (m : InHand ι) (published : Option Msg)

/-- A message that was answered: with what, and the stamped message if its sending was reported as a
success. -/
structure Answered (ι : Type) where
  conn : ι
  origin : Msg
  reply : Msg
  published : Option Msg

/-- The loop with the services, what each connection has handed over, the messages in the channel, those
published and those answered. -/
structure ManagerLoop (ι : Type) where
  world : World
  handed : ι → List Msg
  channel : List (ι × Msg)
  stage : LoopStage ι
  published : List (InHand ι)
  answered : List (Answered ι)

/-- The message with the number that the script returns. -/
def InHand.numbered {ι : Type} (cfg : Config) (w : World) (m : InHand ι) : InHand ι :=
  { m with message := { m.message with
      sendSeq := (singleScript cfg.seqStep (w.redis.hashes (sendSeqKey m.message.senderId))).2.1 } }

/-- The queue with one more message, or not. -/
def World.offered (w : World) (written : Bool) (payload : Payload) : World :=
  { w with queue := w.queue ++ if written then [payload] else [] }

/-- The result of a call of the chat service: a failure of the call, or a response with its error text. -/
abbrev RpcResult := Except String String

namespace ManagerLoop

variable {ι : Type} [DecidableEq ι]

def start (world : World) : ManagerLoop ι := ⟨world, fun _ => [], [], .waiting, [], []⟩

/-- `broadcast`, when the channel has room. -/
def hand (i : ι) (msg : Msg) (s : ManagerLoop ι) : ManagerLoop ι :=
  { s with
    handed := Function.update s.handed i (s.handed i ++ [msg])
    channel := s.channel ++ [(i, msg)] }

/-- The world after the script has run for a sender. -/
def drawn (cfg : Config) (userId : UserId) (w : World) : World :=
  w.bumped cfg.seqStep [sendSeqKey userId]

/-- The message with its stamp in the queue, if it gets there. -/
def publish (nanoid : String) (written : Bool) (m : InHand ι) (s : ManagerLoop ι) : ManagerLoop ι :=
  let stamped := Producer.stamp nanoid s.world.now m.message
  { s with
    world := s.world.offered written (.json stamped)
    published := s.published ++ if written then [{ m with message := stamped }] else [] }

/-- What `process_message` makes of the message when the chat service has answered, or not. -/
def outcome (nanoid : String) (now : Int) (result : RpcResult) (m : InHand ι) : LoopStage ι :=
  let stamped := Producer.stamp nanoid now m.message
  match result with
  | .error e => .answering { m with message := Manager.createErrorMessage m.message e } none
  | .ok err =>
    let message := if err = "" then { m.message with content := [] }
      else Manager.createErrorMessage m.message err
    .answering
      { m with message := { message with
          msgType := MsgType.msgRecResp.toI32, serverId := stamped.serverId,
          sendTime := stamped.sendTime } }
      (if err = "" then some stamped else none)

end ManagerLoop

open Remote ManagerLoop

/-- A step of the loop or of a connection. A failed call of Redis may have run the script, a failed call
of the chat service may have published the message; a reported success has. -/
inductive LoopStep {ι : Type} [DecidableEq ι] (cfg : Config) (s : ManagerLoop ι) : ManagerLoop ι → Prop where
  | hand (i : ι) (msg : Msg) : s.channel.length < channelCapacity → LoopStep cfg s (s.hand i msg)
  | take (i : ι) (msg : Msg) (channel : List (ι × Msg)) : s.stage = .waiting →
      s.channel = (i, msg) :: channel →
      LoopStep cfg s { s with channel, stage := .numbering ⟨i, msg, msg⟩ }
  | number (m : InHand ι) : s.stage = .numbering m →
      LoopStep cfg s { s with
        world := drawn cfg m.message.senderId s.world
        stage := .sending (m.numbered cfg s.world) }
  | numberFailed (m : InHand ι) (ran : Bool) (text : String) : s.stage = .numbering m →
      LoopStep cfg s { s with
        world := if ran then drawn cfg m.message.senderId s.world else s.world
        stage := .answering { m with message := Manager.createErrorMessage m.message text } none }
  | send (m : InHand ι) (nanoid : String) (written : Bool) (result : RpcResult) :
      s.stage = .sending m → (result = .ok "" → written = true) →
      LoopStep cfg s { s.publish nanoid written m with stage := outcome nanoid s.world.now result m }
  | reply (m : InHand ι) (published : Option Msg) : s.stage = .answering m published →
      LoopStep cfg s { s with
        answered := s.answered ++ [⟨m.conn, m.origin, m.message, published⟩]
        stage := .waiting }

/-- The runs of the loop. The other services draw numbers and publish as well. -/
inductive Looped {ι : Type} [DecidableEq ι] (cfg : Config) : ManagerLoop ι → Prop where
  | start (world : World) : Looped cfg (start world)
  | step {s t : ManagerLoop ι} : Looped cfg s → LoopStep cfg s t → Looped cfg t
  | others {s : ManagerLoop ι} (world : World) : Looped cfg s →
      (∀ u, (s.world.redis.hashes (sendSeqKey u)).cur ≤ (world.redis.hashes (sendSeqKey u)).cur) →
      s.world.queue <+: world.queue → Looped cfg { s with world }

namespace LoopStage

variable {ι : Type}

/-- The message that has been taken and not answered. -/
def work : LoopStage ι → List (ι × Msg)
  | .waiting => []
  | .numbering m | .sending m | .answering m _ => [(m.conn, m.origin)]

/-- The same, once nothing but the answer is left. -/
def done : LoopStage ι → List (ι × Msg)
  | .waiting | .numbering _ | .sending _ => []
  | .answering m _ => [(m.conn, m.origin)]

end LoopStage

namespace ManagerLoop

variable {ι : Type}

/-- The messages that have been taken, in order. -/
def taken (s : ManagerLoop ι) : List (ι × Msg) :=
  s.answered.map (fun a => (a.conn, a.origin)) ++ s.stage.work

/-- Those that will not be sent any more. -/
def past (s : ManagerLoop ι) : List (ι × Msg) :=
  s.answered.map (fun a => (a.conn, a.origin)) ++ s.stage.done

end ManagerLoop

/-- The messages of one connection. -/
def ofConn {ι : Type} [DecidableEq ι] (i : ι) (ms : List (ι × Msg)) : List Msg :=
  (ms.filter (·.1 = i)).map Prod.snd

section

variable {ι : Type} {s : ManagerLoop ι}

theorem stamp_eq (nanoid : String) (now : Int) (msg : Msg) :
    Producer.stamp nanoid now msg =
      { msg with serverId := (Producer.stamp nanoid now msg).serverId, sendTime := now } := by
  unfold Producer.stamp
  cases isReceived msg.msgType <;> rfl

theorem stamp_senderId (nanoid : String) (now : Int) (msg : Msg) :
    (Producer.stamp nanoid now msg).senderId = msg.senderId := by
  rw [stamp_eq]

theorem stamp_sendSeq (nanoid : String) (now : Int) (msg : Msg) :
    (Producer.stamp nanoid now msg).sendSeq = msg.sendSeq := by
  rw [stamp_eq]

/-- A reply to a message, when the sending of it under its stamp may have been reported. -/
structure Reports (origin reply : Msg) (stamped : Option Msg) : Prop where
  kind : reply.msgType = MsgType.msgRecResp.toI32
  client : reply.clientId = origin.clientId
  sender : reply.senderId = origin.senderId
  platform : reply.platform = origin.platform
  success : ∀ msg, stamped = some msg →
    reply = { msg with content := [], msgType := MsgType.msgRecResp.toI32 }

/-- The message has its number and is otherwise as it was handed over. -/
def InHand.Numbered (m : InHand ι) : Prop := ∃ n, m.message = { m.origin with sendSeq := n }

theorem numbered_numbered {m : InHand ι} (hm : m.message = m.origin) (cfg : Config) (w : World) :
    (m.numbered cfg w).Numbered := by
  refine ⟨(singleScript cfg.seqStep (w.redis.hashes (sendSeqKey m.message.senderId))).2.1, ?_⟩
  simp only [InHand.numbered, hm]

theorem reports_createErrorMessage {m : InHand ι} (hm : m.Numbered) (text : String) :
    Reports m.origin (Manager.createErrorMessage m.message text) none := by
  obtain ⟨n, hn⟩ := hm
  rw [hn]
  exact ⟨rfl, rfl, rfl, rfl, fun _ h => nomatch h⟩

/-- The chat service has answered the message in work, or not. -/
theorem outcome_eq (nanoid : String) (now : Int) (result : RpcResult) {m : InHand ι} (hm : m.Numbered) :
    ∃ message stamped, outcome nanoid now result m = .answering { m with message } stamped ∧
      Reports m.origin message stamped ∧
      ∀ msg, stamped = some msg → result = .ok "" ∧ msg = Producer.stamp nanoid now m.message := by
  cases result with
  | error e => exact ⟨_, _, rfl, reports_createErrorMessage hm e, fun _ h => nomatch h⟩
  | ok err =>
    obtain ⟨n, hn⟩ := hm
    by_cases herr : err = ""
    · subst herr
      refine ⟨_, _, rfl, ⟨rfl, ?_, ?_, ?_, ?_⟩, fun msg h => ⟨rfl, (Option.some.inj h).symm⟩⟩
      · rw [hn]
        rfl
      · rw [hn]
        rfl
      · rw [hn]
        rfl
      · intro msg h
        cases h
        rw [stamp_eq nanoid now m.message]
        rfl
    · refine ⟨_, none, by rw [outcome]; simp only [herr, if_false]; rfl, ⟨rfl, ?_, ?_, ?_, ?_⟩,
        fun _ h => nomatch h⟩
      · rw [hn]
        rfl
      · rw [hn]
        rfl
      · rw [hn]
        rfl
      · exact fun _ h => nomatch h

@[simp] theorem work_outcome (nanoid : String) (now : Int) (result : RpcResult) (m : InHand ι) :
    (outcome nanoid now result m).work = [(m.conn, m.origin)] := by
  cases result <;> rfl

@[simp] theorem done_outcome (nanoid : String) (now : Int) (result : RpcResult) (m : InHand ι) :
    (outcome nanoid now result m).done = [(m.conn, m.origin)] := by
  cases result <;> rfl

theorem past_sublist_taken : s.past.Sublist s.taken := by
  apply List.Sublist.append_left
  cases s.stage with
  | answering m published => exact List.Sublist.refl _
  | _ => exact List.nil_sublist _

/-- The counter of a sender. -/
def ManagerLoop.drawnBy (s : ManagerLoop ι) (userId : UserId) : Int :=
  (s.world.redis.hashes (sendSeqKey userId)).cur

/-- The numbers of a sender's published messages rise, up to the counter, and the next is higher. -/
structure Rising (s : ManagerLoop ι) : Prop where
  below : ∀ m ∈ s.published, m.message.sendSeq ≤ s.drawnBy m.message.senderId
  next : ∀ m, s.stage = .sending m → m.message.sendSeq ≤ s.drawnBy m.message.senderId ∧
    ∀ p ∈ s.published, p.message.senderId = m.message.senderId → p.message.sendSeq < m.message.sendSeq
  rises : s.published.Pairwise fun a b =>
    a.message.senderId = b.message.senderId → a.message.sendSeq < b.message.sendSeq

/-- A step that publishes nothing and lowers no counter. -/
theorem Rising.of_world {t : ManagerLoop ι} (h : Rising s) (hpublished : t.published = s.published)
    (hdrawn : ∀ u, s.drawnBy u ≤ t.drawnBy u) (hstage : ∀ m, t.stage = .sending m → s.stage = .sending m) :
    Rising t where
  below m hm := by
    rw [hpublished] at hm
    exact (h.below m hm).trans (hdrawn _)
  next m hm := by
    obtain ⟨hle, hlt⟩ := h.next m (hstage m hm)
    rw [hpublished]
    exact ⟨hle.trans (hdrawn _), hlt⟩
  rises := by
    rw [hpublished]
    exact h.rises

/-- The message in work is published last, with the highest number of its sender. -/
theorem Rising.publish (h : Rising s) {m : InHand ι} (hm : s.stage = .sending m) (nanoid : String)
    {stage : LoopStage ι} (hstage : ∀ p, stage ≠ .sending p) :
    Rising { s.publish nanoid true m with stage } := by
  obtain ⟨hle, hlt⟩ := h.next m hm
  refine ⟨fun p hp => ?_, fun p hp => absurd hp (hstage p), ?_⟩
  · rcases List.mem_append.mp hp with hp | hp
    · exact h.below p hp
    · rw [List.mem_singleton.mp hp]
      dsimp only
      rw [stamp_senderId, stamp_sendSeq]
      exact hle
  · refine List.pairwise_append.mpr ⟨h.rises, List.pairwise_singleton _ _, fun a ha b hb => ?_⟩
    rw [List.mem_singleton.mp hb]
    dsimp only
    rw [stamp_senderId, stamp_sendSeq]
    exact hlt a ha

theorem le_drawn (cfg : Config) (userId u : UserId) (w : World) :
    (w.redis.hashes (sendSeqKey u)).cur ≤ ((drawn cfg userId w).redis.hashes (sendSeqKey u)).cur := by
  rw [drawn, World.bumped_hashes, bumps_cur]
  exact Int.le_add_of_nonneg_right (Int.natCast_nonneg _)

/-- The number that the script returns is the counter afterwards, and was not reached before. -/
theorem numbered_sendSeq (cfg : Config) (w : World) (m : InHand ι) :
    (m.numbered cfg w).message.sendSeq =
        ((drawn cfg m.message.senderId w).redis.hashes (sendSeqKey m.message.senderId)).cur ∧
      (w.redis.hashes (sendSeqKey m.message.senderId)).cur < (m.numbered cfg w).message.sendSeq := by
  rw [InHand.numbered, singleScript_reply_cur, drawn, World.bumped_hashes, bumps_cur,
    List.count_singleton_self]
  exact ⟨rfl, Int.lt_succ _⟩

end

section

variable {ι : Type} [DecidableEq ι] {cfg : Config} {s : ManagerLoop ι}

theorem ofConn_append (i : ι) (ms ms' : List (ι × Msg)) :
    ofConn i (ms ++ ms') = ofConn i ms ++ ofConn i ms' := by
  simp [ofConn]

/-- Nothing is lost, repeated or moved on the way through the channel. -/
theorem Looped.handed_eq (h : Looped cfg s) (i : ι) : s.handed i = ofConn i (s.taken ++ s.channel) := by
  induction h with
  | start world => rfl
  | @step s t hrun hstep ih =>
    cases hstep with
    | hand j msg _ =>
      change Function.update s.handed j (s.handed j ++ [msg]) i =
        ofConn i (s.taken ++ (s.channel ++ [(j, msg)]))
      rw [← List.append_assoc, ofConn_append, ← ih]
      by_cases hij : i = j
      · subst hij
        simp [ofConn]
      · simp [ofConn, hij, Ne.symm hij]
    | take j msg channel hstage hchannel =>
      rw [ih, hchannel]
      simp [taken, hstage, LoopStage.work]
    | number m hstage =>
      rw [ih]
      simp [taken, hstage, LoopStage.work, InHand.numbered]
    | numberFailed m ran text hstage =>
      rw [ih]
      simp [taken, hstage, LoopStage.work]
    | send m nanoid written result hstage _ =>
      rw [publish, ih]
      simp only [taken, hstage, work_outcome]
      rfl
    | reply m published hstage =>
      rw [ih]
      simp [taken, hstage, LoopStage.work]
  | others world _ _ _ ih => exact ih

theorem Looped.channel_le (h : Looped cfg s) : s.channel.length ≤ channelCapacity := by
  induction h with
  | start world => exact Nat.zero_le _
  | @step s t hrun hstep ih =>
    cases hstep with
    | hand j msg hroom =>
      change (s.channel ++ [(j, msg)]).length ≤ channelCapacity
      rw [List.length_append, List.length_singleton]
      exact hroom
    | take j msg channel _ hchannel =>
      rw [hchannel, List.length_cons] at ih
      exact Nat.le_of_succ_le ih
    | number m _ => exact ih
    | numberFailed m ran text _ => exact ih
    | send m nanoid written result _ _ => exact ih
    | reply m published _ => exact ih
  | others world _ _ _ ih => exact ih

/-- A message is published when it is at the chat service, so at most once and in its turn. -/
theorem Looped.published_sublist (h : Looped cfg s) :
    (s.published.map fun m => (m.conn, m.origin)).Sublist s.past := by
  induction h with
  | start world => exact List.Sublist.slnil
  | @step s t hrun hstep ih =>
    cases hstep with
    | hand j msg _ => exact ih
    | take j msg channel hstage _ => simpa [past, hstage, LoopStage.done] using ih
    | number m hstage => simpa [past, hstage, LoopStage.done] using ih
    | numberFailed m ran text hstage =>
      rw [past, hstage, LoopStage.done, List.append_nil] at ih
      exact ih.trans (List.sublist_append_left _ _)
    | send m nanoid written result hstage _ =>
      rw [past, hstage, LoopStage.done, List.append_nil] at ih
      rw [past, done_outcome, publish, List.map_append]
      apply ih.append
      cases written
      · exact List.nil_sublist _
      · exact List.Sublist.refl _
    | reply m published hstage => simpa [past, hstage, LoopStage.done] using ih
  | others world _ _ _ ih => exact ih

theorem Looped.published_handed (h : Looped cfg s) (i : ι) :
    (ofConn i (s.published.map fun m => (m.conn, m.origin))).Sublist (s.handed i) := by
  have htaken : (ofConn i (s.published.map fun m => (m.conn, m.origin))).Sublist (ofConn i s.taken) :=
    ((h.published_sublist.trans past_sublist_taken).filter _).map _
  rw [h.handed_eq i, ofConn_append]
  exact htaken.trans (List.sublist_append_left _ _)

/-- What is published is in the queue, in its order. -/
theorem Looped.published_queue (h : Looped cfg s) :
    (s.published.map fun m => Payload.json m.message).Sublist s.world.queue := by
  induction h with
  | start world => exact List.nil_sublist _
  | @step s t hrun hstep ih =>
    cases hstep with
    | hand j msg _ => exact ih
    | take j msg channel _ _ => exact ih
    | number m _ => exact ih
    | numberFailed m ran text _ => cases ran <;> exact ih
    | send m nanoid written result _ _ =>
      rw [publish, List.map_append]
      apply ih.append
      cases written <;> exact List.Sublist.refl _
    | reply m published _ => exact ih
  | others world _ _ hqueue ih => exact ih.trans hqueue.sublist

/-- What is known of the message in work. -/
def Staged (published : List (InHand ι)) : LoopStage ι → Prop
  | .waiting => True
  | .numbering m => m.message = m.origin
  | .sending m => m.Numbered
  | .answering m stamped => Reports m.origin m.message stamped ∧
      ∀ msg, stamped = some msg → ⟨m.conn, m.origin, msg⟩ ∈ published

theorem Looped.staged (h : Looped cfg s) : Staged s.published s.stage := by
  induction h with
  | start world => trivial
  | @step s t hrun hstep ih =>
    cases hstep with
    | hand j msg _ => exact ih
    | take j msg channel _ _ => exact rfl
    | number m hstage =>
      rw [hstage] at ih
      exact numbered_numbered ih _ _
    | numberFailed m ran text hstage =>
      rw [hstage] at ih
      refine ⟨reports_createErrorMessage ⟨m.origin.sendSeq, ih⟩ text, fun _ hmsg => nomatch hmsg⟩
    | send m nanoid written result hstage hwritten =>
      rw [hstage] at ih
      obtain ⟨message, stamped, hout, hreports, hstamped⟩ := outcome_eq nanoid s.world.now result ih
      rw [hout]
      refine ⟨hreports, fun msg hmsg => ?_⟩
      obtain ⟨hok, rfl⟩ := hstamped msg hmsg
      rw [publish, hwritten hok]
      exact List.mem_append_right _ (List.mem_singleton_self _)
    | reply m published _ => trivial
  | others world _ _ _ ih => exact ih

/-- Every answer is one to its message; a success is reported of a published message only. -/
theorem Looped.answers (h : Looped cfg s) : ∀ a ∈ s.answered, Reports a.origin a.reply a.published ∧
    ∀ msg, a.published = some msg → ⟨a.conn, a.origin, msg⟩ ∈ s.published := by
  induction h with
  | start world => exact fun _ ha => nomatch ha
  | @step s t hrun hstep ih =>
    cases hstep with
    | hand j msg _ => exact ih
    | take j msg channel _ _ => exact ih
    | number m _ => exact ih
    | numberFailed m ran text _ => exact ih
    | send m nanoid written result _ _ =>
      intro a ha
      exact ⟨(ih a ha).1, fun msg hmsg => List.mem_append_left _ ((ih a ha).2 msg hmsg)⟩
    | reply m published hstage =>
      intro a ha
      rcases List.mem_append.mp ha with ha | ha
      · exact ih a ha
      · have hstaged := hrun.staged
        rw [hstage] at hstaged
        rw [List.mem_singleton.mp ha]
        exact hstaged
  | others world _ _ _ ih => exact ih

/-- A published message is the one handed over with a number and a stamp. -/
theorem Looped.stamped (h : Looped cfg s) : ∀ m ∈ s.published, ∃ nanoid now n,
    m.message = Producer.stamp nanoid now { m.origin with sendSeq := n } := by
  induction h with
  | start world => exact fun _ hm => nomatch hm
  | @step s t hrun hstep ih =>
    cases hstep with
    | hand j msg _ => exact ih
    | take j msg channel _ _ => exact ih
    | number m _ => exact ih
    | numberFailed m ran text _ => exact ih
    | send m nanoid written result hstage _ =>
      intro p hp
      rcases List.mem_append.mp hp with hp | hp
      · exact ih p hp
      · have hstaged := hrun.staged
        rw [hstage] at hstaged
        obtain ⟨n, hn⟩ := hstaged
        cases written with
        | false => cases hp
        | true =>
          rw [List.mem_singleton.mp hp]
          exact ⟨nanoid, s.world.now, n, congrArg (Producer.stamp nanoid s.world.now) hn⟩
    | reply m published _ => exact ih
  | others world _ _ _ ih => exact ih

theorem Looped.rising (h : Looped cfg s) : Rising s := by
  induction h with
  | start world =>
    exact { below := fun _ hm => (nomatch hm), next := fun _ hm => (nomatch hm), rises := List.Pairwise.nil }
  | @step s t hrun hstep ih =>
    cases hstep with
    | hand j msg _ => exact ih.of_world rfl (fun _ => le_refl _) (fun _ hm => hm)
    | take j msg channel _ _ => exact ih.of_world rfl (fun _ => le_refl _) (fun _ hm => nomatch hm)
    | number m _ =>
      have hdrawn : ∀ u, s.drawnBy u ≤ ManagerLoop.drawnBy
          { s with world := drawn cfg m.message.senderId s.world, stage := .sending (m.numbered cfg s.world) } u :=
        fun u => le_drawn cfg _ u s.world
      refine ⟨fun p hp => (ih.below p hp).trans (hdrawn _), ?_, ih.rises⟩
      intro p hp
      cases hp
      obtain ⟨hcur, hlt⟩ := numbered_sendSeq cfg s.world m
      refine ⟨hcur.le, fun p hp hsender => ?_⟩
      have hbelow := ih.below p hp
      rw [hsender] at hbelow
      exact hbelow.trans_lt hlt
    | numberFailed m ran text _ =>
      refine ih.of_world rfl (fun u => ?_) (fun _ hm => nomatch hm)
      cases ran
      · exact le_refl _
      · exact le_drawn cfg _ u _
    | send m nanoid written result hstage _ =>
      have hstage' : ∀ p, outcome nanoid s.world.now result m ≠ .sending p := by
        intro p
        cases result <;> exact fun h => nomatch h
      cases written with
      | false =>
        exact ih.of_world (List.append_nil _) (fun _ => le_refl _) (fun p hp => absurd hp (hstage' p))
      | true => exact ih.publish hstage nanoid hstage'
    | reply m published _ => exact ih.of_world rfl (fun _ => le_refl _) (fun _ hm => nomatch hm)
  | others world _ hcounters _ ih => exact ih.of_world rfl hcounters (fun _ hm => hm)

end

section

theorem offered_false (w : World) (payload : Payload) : w.offered false payload = w := by
  simp [World.offered]

theorem faulty_publish {payload : Payload} {w t : World} {r : Except Error Unit}
    (h : Prog.Faulty (Producer.publish payload) w r t) :
    ∃ written, t = w.offered written payload ∧ (r = .ok () → written = true) := by
  obtain ⟨ht, e, rfl⟩ | ⟨b, hb, -⟩ := Prog.faulty_request h
  · exact ⟨false, ht.trans (offered_false w payload).symm, fun hr => nomatch hr⟩
  · cases hb
    exact ⟨true, rfl, fun _ => rfl⟩

/-- `send_msg`, whatever fails: the message is written or not, and a response without an error text means
that it is. -/
theorem faulty_sendMsg {nanoid : String} {msg : Msg} {w t : World} {r : Except Error MsgResponse}
    (h : Prog.Faulty (Producer.sendMsg nanoid ⟨some msg⟩) w r t) :
    ∃ written, t = w.offered written (.json (Producer.stamp nanoid w.now msg)) ∧
      ∀ response, r = .ok response →
        response.serverId = (Producer.stamp nanoid w.now msg).serverId ∧
        response.sendTime = (Producer.stamp nanoid w.now msg).sendTime ∧
        (response.err = "" → written = true) := by
  have hfalse := (offered_false w (.json (Producer.stamp nanoid w.now msg))).symm
  rcases Prog.faulty_bind h with ⟨now, u, hnow, h⟩ | ⟨e, hnow, rfl⟩
  · cases Prog.faulty_request_ok hnow
    rcases Prog.faulty_bind h with ⟨err, v, hsent, h⟩ | ⟨e, hsent, rfl⟩
    · obtain ⟨r', hr', hsent⟩ := Prog.faulty_attempt hsent
      obtain ⟨written, rfl, hwritten⟩ := faulty_publish hsent
      cases hr'
      cases h
      refine ⟨written, rfl, fun response hresponse => ?_⟩
      cases hresponse
      refine ⟨rfl, rfl, fun herr => hwritten ?_⟩
      cases err with
      | ok a => rfl
      | error e => exact absurd (show "Message production error" = "" from herr) (by decide)
    · obtain ⟨r', hr', -⟩ := Prog.faulty_attempt hsent
      cases hr'
  · obtain ⟨rfl, -⟩ | ⟨b, hb, -⟩ := Prog.faulty_request hnow
    · exact ⟨false, hfalse, fun _ hr => nomatch hr⟩
    · cases hb
      exact ⟨false, hfalse, fun _ hr => nomatch hr⟩

variable {ι : Type} [DecidableEq ι] {cfg : Config} {s : ManagerLoop ι}

/-- `process_message`, whatever fails, is the steps of the loop from the message taken to its answer. -/
theorem Looped.processMessage (h : Looped cfg s) {m : InHand ι} (hm : s.stage = .numbering m)
    {text : Error → String} {nanoid : String} {r : Msg} {t : World}
    (hrun : Prog.Faulty (Manager.processMessage cfg text nanoid m.message) s.world (.ok r) t) :
    ∃ s' : ManagerLoop ι, Looped cfg s' ∧ s'.world = t ∧
      ∃ stamped, s'.stage = .answering { m with message := r } stamped := by
  obtain ⟨numbered, u, hnumbered, hrun⟩ := Prog.faulty_bind_ok hrun
  obtain ⟨r', hr', hnumbered⟩ := Prog.faulty_attempt hnumbered
  cases hr'
  cases numbered with
  | error e =>
    cases hrun
    obtain ⟨rfl, -⟩ | ⟨rfl, -⟩ := Cache.faulty_evalSingle hnumbered
    · exact ⟨_, h.step (.numberFailed m false (text e) hm), rfl, _, rfl⟩
    · exact ⟨_, h.step (.numberFailed m true (text e) hm), rfl, _, rfl⟩
  | ok p =>
    obtain ⟨rfl, hp⟩ : u = drawn cfg m.message.senderId s.world ∧
        p = (singleScript cfg.seqStep (s.world.redis.hashes (sendSeqKey m.message.senderId))).2 := by
      obtain ⟨-, e, he⟩ | ⟨rfl, hp | ⟨e, he⟩⟩ := Cache.faulty_evalSingle hnumbered
      · cases he
      · exact ⟨rfl, Except.ok.inj hp⟩
      · cases he
    subst hp
    have hsending := h.step (.number m hm)
    obtain ⟨sent, v, hsent, hrun⟩ := Prog.faulty_bind_ok hrun
    obtain ⟨r', hr', hsent⟩ := Prog.faulty_attempt hsent
    cases hr'
    obtain ⟨written, rfl, hresponse⟩ := faulty_sendMsg hsent
    cases sent with
    | error e =>
      cases hrun
      exact ⟨_, hsending.step (.send (m.numbered cfg s.world) nanoid written (.error (text e)) rfl
        fun hok => nomatch hok), rfl, _, rfl⟩
    | ok response =>
      cases hrun
      obtain ⟨hserver, htime, hwritten⟩ := hresponse response rfl
      refine ⟨_, hsending.step (.send (m.numbered cfg s.world) nanoid written (.ok response.err) rfl
        fun hok => hwritten (Except.ok.inj hok)), rfl, ?_⟩
      rw [hserver, htime]
      exact ⟨_, rfl⟩

/-- The messages of a connection are taken, published and answered in the order in which they were handed
over, each at most once, those of a sender under rising numbers. An answer names its message, and one that
reports success repeats the stamp of a message in the queue. `process_message` stays within these runs. -/
theorem manager_keeps_order (h : Looped cfg s) :
    s.channel.length ≤ channelCapacity ∧
    (∀ i, s.handed i = ofConn i s.taken ++ ofConn i s.channel ∧
      (ofConn i (s.published.map fun m => (m.conn, m.origin))).Sublist (s.handed i)) ∧
    (s.published.map fun m => Payload.json m.message).Sublist s.world.queue ∧
    (∀ m ∈ s.published, ∃ nanoid now n,
      m.message = Producer.stamp nanoid now { m.origin with sendSeq := n }) ∧
    s.published.Pairwise (fun a b =>
      a.message.senderId = b.message.senderId → a.message.sendSeq < b.message.sendSeq) ∧
    (∀ a ∈ s.answered, Reports a.origin a.reply a.published ∧
      ∀ msg, a.published = some msg → ⟨a.conn, a.origin, msg⟩ ∈ s.published) ∧
    ∀ m text nanoid r t, s.stage = .numbering m →
      Prog.Faulty (Manager.processMessage cfg text nanoid m.message) s.world (.ok r) t →
      ∃ s' : ManagerLoop ι, Looped cfg s' ∧ s'.world = t ∧
        ∃ stamped, s'.stage = .answering { m with message := r } stamped := by
  refine ⟨h.channel_le, fun i => ⟨?_, h.published_handed i⟩, h.published_queue, h.stamped, h.rising.rises,
    h.answers, fun m text nanoid r t hm hrun => h.processMessage hm hrun⟩
  rw [h.handed_eq i, ofConn_append]

/-- A second message of the connection that has sent `hello`. -/
def helloAgain : Msg := { hello with content := [1] }

/-- The loop after two messages of one connection have been numbered, sent and answered. -/
theorem looped_hellos : ∃ s : ManagerLoop Unit, Looped .small s ∧ s.handed () = [hello, helloAgain] ∧
    s.answered.map (fun a => a.origin) = [hello, helloAgain] ∧
    s.published.map (fun m => (m.origin, m.message.sendSeq)) = [(hello, 1), (helloAgain, 2)] := by
  have hstart : Looped .small (ManagerLoop.start World.empty : ManagerLoop Unit) := .start World.empty
  have hhanded := (hstart.step (.hand () hello (by decide))).step (.hand () helloAgain (by decide))
  have htaken := hhanded.step (.take () hello [((), helloAgain)] rfl rfl)
  have hsent := (htaken.step (.number _ rfl)).step (.send _ "1" true (.ok "") rfl fun _ => rfl)
  have htaken := (hsent.step (.reply _ _ rfl)).step (.take () helloAgain [] rfl rfl)
  have hsent := (htaken.step (.number _ rfl)).step (.send _ "2" true (.ok "") rfl fun _ => rfl)
  exact ⟨_, hsent.step (.reply _ _ rfl), rfl, rfl, by decide⟩

theorem manager_keeps_order_hellos : ∃ s : ManagerLoop Unit,
    s.handed () = [hello, helloAgain] ∧ s.answered.map (fun a => a.origin) = [hello, helloAgain] ∧
      s.published.map (fun m => (m.origin, m.message.sendSeq)) = [(hello, 1), (helloAgain, 2)] ∧
      (s.published.map fun m => Payload.json m.message).Sublist s.world.queue ∧
      s.published.Pairwise fun a b =>
        a.message.senderId = b.message.senderId → a.message.sendSeq < b.message.sendSeq := by
  obtain ⟨s, h, hhanded, hanswered, hpublished⟩ := looped_hellos
  obtain ⟨-, -, hqueue, -, hrising, -⟩ := manager_keeps_order h
  exact ⟨s, hhanded, hanswered, hpublished, hqueue, hrising⟩

end

end Sandcat
