import Sandcat.LivePushes
import Sandcat.Arrival

/-!
# From one websocket to another

The gateway, the consumer and the gateways that it pushes to: what a connection hands to the manager is
published, taken from the queue and pushed to the clients of its addressees. The manager's own replies to the
senders are not among what is pushed.
-/

namespace Sandcat

open Remote ManagerLoop

/-- What `dispatch` asks of the pusher. -/
def PushRequest.ofMsg : MsgType2 → Msg → List GroupMemSeq → PushRequest
  | .single, msg, _ => .single msg
  | .group, msg, members => .group msg members

/-- What a record comes to that is handled with no call refused. -/
def World.asked (cfg : Config) (w : World) : Payload → Option PushRequest
  | .malformed => none
  | .json msg =>
    match MsgType.tryFrom msg.msgType with
    | none => none
    | some mt =>
      if mt = .read ∨ (Consumer.classifyMsgType mt).1 = .group ∧ badRemoval msg = true then none
      else some (.ofMsg (Consumer.classifyMsgType mt).1 (w.numberedMsg mt msg)
        (w.memberSeqs cfg.seqStep mt msg))

/-- A push of the record: its message, with a number of the receiver. -/
def PushRequest.Of (request : PushRequest) (payload : Payload) : Prop :=
  ∃ msg seq, payload = .json msg ∧ request.message = { msg with seq }

/-- The sends of one push at a gateway that does nothing else. -/
def PushRequest.sends (request : Option PushRequest) (hub : Hub) : List (Client × Msg) :=
  match request with
  | none => []
  | some request => request.tasks.flatMap (HubTask.sends hub)

theorem PushRequest.sends_ofMsg (msgType : MsgType2) (msg : Msg) (members : List GroupMemSeq) (hub : Hub) :
    PushRequest.sends (some (.ofMsg msgType msg members)) hub = Consumer.sendsOf msgType msg members hub := by
  cases msgType with
  | single => exact sends_single hub msg
  | group => exact sends_group hub msg members

theorem World.asked_of {cfg : Config} {w : World} {payload : Payload} {request : PushRequest}
    (h : w.asked cfg payload = some request) : request.Of payload := by
  cases payload with
  | malformed => cases h
  | json msg =>
    cases ht : MsgType.tryFrom msg.msgType with
    | none =>
      simp only [World.asked, ht] at h
      cases h
    | some mt =>
      simp only [World.asked, ht] at h
      split at h
      · cases h
      · cases h
        have hnumbered : ∃ seq, w.numberedMsg mt msg = { msg with seq } := by
          unfold World.numberedMsg
          split
          · exact ⟨_, rfl⟩
          · exact ⟨msg.seq, rfl⟩
        obtain ⟨seq, hseq⟩ := hnumbered
        refine ⟨msg, seq, rfl, ?_⟩
        rw [← hseq]
        cases (Consumer.classifyMsgType mt).1 <;> rfl

namespace Consumer

variable {cfg : Config} {w : World} {mt : MsgType} {msg : Msg} {members : List GroupMemSeq}

theorem ensures_dispatch_deliveries : Prog.Ensures (dispatch cfg mt msg members) w fun _ t =>
    t.deliveries = w.deliveries ++ w.pushes (sendsOf (classifyMsgType mt).1 msg members) := by
  have hstored : Prog.Ensures (if getSendToDbFlag mt then spawnLogged (sendToDb cfg msg
      (classifyMsgType mt).1 (classifyMsgType mt).2.2 members) else pure (.ok ())) w fun r t =>
        ∃ b, r = .ok b ∧ t.outsideStores = w.outsideStores := by
    split
    · apply ensures_spawnLogged
      apply Prog.ensures_frame (frame_sendToDb _ _ _ _)
      exact ⟨fun _ hout => hout⟩
    · exact Prog.ensures_ret ⟨_, rfl, rfl⟩
  apply ensures_logged hstored
  intro t hout
  apply Prog.ensures_mono ensures_pushMsg
  intro r u hu
  have hp : t.pushes (sendsOf (classifyMsgType mt).1 msg members) =
      w.pushes (sendsOf (classifyMsgType mt).1 msg members) :=
    (congrArg (fun w => World.pushes w _) hout :)
  have hd : t.deliveries = w.deliveries := (congrArg World.deliveries hout :)
  rwa [hp, hd] at hu

/-- Every gateway makes the sends of the push that a record comes to. -/
theorem ensures_asked (cfg : Config) (payload : Payload) (w : World) :
    Prog.Ensures (handleMsg cfg payload) w fun _ t =>
      t.deliveries = w.deliveries ++ w.pushes (PushRequest.sends (w.asked cfg payload)) := by
  have hnone : w.pushes (PushRequest.sends none) = [] := by
    rw [World.pushes, List.flatMap_eq_nil_iff]
    intro addr _
    cases w.gateways addr <;> rfl
  apply handleMsg_cases (P := fun payload m => Prog.Ensures m w fun _ t =>
    t.deliveries = w.deliveries ++ w.pushes (PushRequest.sends (w.asked cfg payload))) cfg
  · intro e
    apply Prog.ensures_raise
    rw [World.asked, hnone, List.append_nil]
  · intro msg e ht
    apply Prog.ensures_raise
    simp only [World.asked, ht, hnone, List.append_nil]
  · intro msg ht
    simp only [World.asked, ht, true_or, if_true, hnone, List.append_nil]
    apply Prog.ensures_frame (frame_handleMsgRead cfg msg)
    exact ⟨fun _ hout => (congrArg World.deliveries hout :)⟩
  · intro msg mt ht hread
    apply Prog.ensures_bind
    apply Prog.ensures_frame (frame_numberMsg mt msg)
    apply Prog.ensures_mono ensures_numberMsg
    rintro r t ⟨-, -, hres⟩ hout
    have hd : t.deliveries = w.deliveries := (congrArg World.deliveries hout :)
    have hp : ∀ sends, t.pushes sends = w.pushes sends :=
      fun sends => (congrArg (fun w => World.pushes w sends) hout :)
    simp only [World.asked, ht, hread, false_or]
    split at hres
    · rename_i hbad
      obtain ⟨e, rfl⟩ := hres
      rw [if_pos hbad, hnone, List.append_nil]
      exact hd
    · rename_i hbad
      subst hres
      rw [if_neg hbad]
      apply Prog.ensures_mono ensures_dispatch_deliveries
      intro r u hu
      rw [hu, hd, hp]
      exact congrArg (fun sends => w.deliveries ++ w.pushes sends)
        (funext fun hub => (PushRequest.sends_ofMsg _ _ _ hub).symm)

end Consumer

/-- The runs of a gateway's manager, the consumer and the pushes. The consumer takes the next record of the
queue when no push is under way; whichever of its calls fail, the record comes to at most one push. -/
inductive EndToEnd {ι : Type} [DecidableEq ι] (cfg : Config) (net : Addressing) :
    ManagerLoop ι → List Payload → LivePushes → Prop where
  | start (w : World) : w.queue = [] → EndToEnd cfg net (start w) [] .start
  | gateway {s t : ManagerLoop ι} {handled : List Payload} {live : LivePushes} :
      EndToEnd cfg net s handled live → LoopStep cfg s t → EndToEnd cfg net t handled live
  | discard {s : ManagerLoop ι} {handled : List Payload} {live : LivePushes} (payload : Payload)
      (rest : List Payload) (r : Except Error Unit) (world : World) : EndToEnd cfg net s handled live →
      s.world.queue = handled ++ payload :: rest → live.ready = true →
      Prog.Faulty (Consumer.handleMsg cfg payload) s.world r world →
      EndToEnd cfg net { s with world } (handled ++ [payload]) live
  | consume {s : ManagerLoop ι} {handled : List Payload} {live : LivePushes} (payload : Payload)
      (rest : List Payload) (r : Except Error Unit) (world : World) (request : PushRequest) :
      EndToEnd cfg net s handled live → s.world.queue = handled ++ payload :: rest → live.ready = true →
      Prog.Faulty (Consumer.handleMsg cfg payload) s.world r world → request.Of payload →
      EndToEnd cfg net { s with world } (handled ++ [payload]) (live.step net (.push request))
  | pushing {s : ManagerLoop ι} {handled : List Payload} {live : LivePushes} (op : LiveOp) :
      EndToEnd cfg net s handled live → (∀ request, op ≠ .push request) → op.Proper →
      EndToEnd cfg net s handled (live.step net op)
  | others {s : ManagerLoop ι} {handled : List Payload} {live : LivePushes} (world : World) :
      EndToEnd cfg net s handled live →
      (∀ u, (s.world.redis.hashes (sendSeqKey u)).cur ≤ (world.redis.hashes (sendSeqKey u)).cur) →
      s.world.queue <+: world.queue → EndToEnd cfg net { s with world } handled live

section

variable {α : Type} {l : List α} {x y : α}

theorem pair_sublist (hx : x ∈ l) (hy : y ∈ l) (h : x ≠ y) : [x, y].Sublist l ∨ [y, x].Sublist l := by
  induction l with
  | nil => cases hx
  | cons z l ih =>
    rcases List.mem_cons.mp hx with rfl | hx'
    · have hmem := List.mem_of_ne_of_mem (Ne.symm h) hy
      exact .inl ((List.singleton_sublist.mpr hmem).cons_cons _)
    · rcases List.mem_cons.mp hy with rfl | hy'
      · exact .inr ((List.singleton_sublist.mpr hx').cons_cons _)
      · exact (ih hx' hy').imp (·.cons _) (·.cons _)

/-- Two entries have one order. -/
theorem not_pair_sublist (hl : l.Nodup) (h : [x, y].Sublist l) : ¬ [y, x].Sublist l := by
  induction l with
  | nil => cases h
  | cons z l ih =>
    obtain ⟨hz, hrest⟩ := List.nodup_cons.mp hl
    intro h'
    have htail : ∀ {a b : α}, [a, b].Sublist (z :: l) → b ∈ l := by
      intro a b hab
      cases hab with
      | cons _ hab => exact hab.subset (by simp)
      | cons_cons _ hab => exact List.singleton_sublist.mp hab
    have hx := htail h'
    have hy := htail h
    cases h with
    | cons_cons => exact hz hx
    | cons _ h =>
      cases h' with
      | cons_cons => exact hz hy
      | cons _ h' => exact ih hrest h h'

theorem pair_sublist_of_lt {i j : Nat} (hi : l[i]? = some x) (hj : l[j]? = some y) (hij : i < j) :
    [x, y].Sublist l := by
  have hsplit : l.take j ++ l.drop j = l := List.take_append_drop j l
  have hx : x ∈ l.take j := List.mem_of_getElem? ((List.getElem?_take_of_lt hij).trans hi)
  have hy : y ∈ l.drop j := by
    apply List.mem_of_getElem? (i := 0)
    rw [List.getElem?_drop, Nat.add_zero, hj]
  rw [← hsplit]
  exact (List.singleton_sublist.mpr hx).append (List.singleton_sublist.mpr hy)

end

section

variable {ι : Type} [DecidableEq ι] {cfg : Config} {net : Addressing} {s : ManagerLoop ι}
variable {handled : List Payload} {live : LivePushes}

/-- The identifier that the copies of a push bear. -/
def PushRequest.letterId (request : PushRequest) : Option String := Sandcat.letterId (.json request.message)

theorem PushRequest.Of.letterId {request : PushRequest} {payload : Payload} (h : request.Of payload) :
    request.letterId = Sandcat.letterId payload := by
  obtain ⟨msg, seq, rfl, hmsg⟩ := h
  rw [PushRequest.letterId, hmsg]
  rfl

theorem EndToEnd.looped (h : EndToEnd cfg net s handled live) : Looped cfg s := by
  induction h with
  | start w _ => exact .start w
  | gateway _ hstep ih => exact ih.step hstep
  | discard payload rest r world _ _ _ hrun ih | consume payload rest r world request _ _ _ hrun _ ih =>
    obtain ⟨hqueue, hcur⟩ := faulty_handleMsg_sending hrun
    exact ih.others world (fun u => (hcur u).ge) (hqueue ▸ List.prefix_refl _)
  | pushing op _ _ _ ih => exact ih
  | others world _ hcur hqueue ih => exact ih.others world hcur hqueue

theorem EndToEnd.reached (h : EndToEnd cfg net s handled live) : live.Reached net := by
  induction h with
  | start => exact .start
  | consume payload rest r world request _ _ _ _ _ ih => exact ih.step (.push request) trivial
  | pushing op _ _ hop ih => exact ih.step op hop
  | gateway _ _ ih | discard _ _ _ _ _ _ _ _ ih | others _ _ _ _ ih => exact ih

theorem EndToEnd.handled_isPrefix (h : EndToEnd cfg net s handled live) : handled <+: s.world.queue := by
  induction h with
  | start w _ => exact List.nil_prefix
  | gateway _ hstep ih => exact ih.trans hstep.world.1
  | discard payload rest r world _ hqueue _ hrun | consume payload rest r world _ _ hqueue _ hrun _ =>
    rw [(faulty_handleMsg_sending hrun).1, hqueue]
    exact ⟨rest, (List.append_cons _ _ _).symm⟩
  | pushing op _ _ _ ih => exact ih
  | others world _ _ hqueue ih => exact ih.trans hqueue

/-- A step that is no push asks for nothing. -/
theorem LivePushes.requests_step (live : LivePushes) {op : LiveOp} (hop : ∀ request, op ≠ .push request) :
    (live.step net op).requests = live.requests := by
  have hturn := LivePushes.turn_step net live op
  generalize live.step net op = t at hturn
  cases hturn with
  | push request _ => exact absurd rfl (hop request)
  | stay | prepare | spawn | look | lose | send | answer | receive => rfl

/-- The pushes are of the records that have been handled, in their order. -/
theorem EndToEnd.requests (h : EndToEnd cfg net s handled live) :
    (live.requests.filterMap PushRequest.letterId).Sublist (handled.filterMap letterId) ∧
      ∀ request ∈ live.requests, ∃ payload ∈ handled, request.Of payload := by
  induction h with
  | start => exact ⟨List.nil_sublist _, fun _ hin => by cases hin⟩
  | gateway _ _ ih | others _ _ _ _ ih => exact ih
  | discard payload rest r world _ _ _ _ ih =>
    obtain ⟨hsub, hof⟩ := ih
    rw [List.filterMap_append]
    refine ⟨hsub.trans (List.sublist_append_left _ _), fun request hin => ?_⟩
    obtain ⟨record, hrecord, hrequest⟩ := hof request hin
    exact ⟨record, List.mem_append_left _ hrecord, hrequest⟩
  | consume payload rest r world request _ _ hready _ hrequest ih =>
    obtain ⟨hsub, hof⟩ := ih
    have hlast : [request].filterMap PushRequest.letterId = [payload].filterMap letterId := by
      simp only [List.filterMap_cons, List.filterMap_nil, hrequest.letterId]
    simp only [LivePushes.step, if_pos hready, List.filterMap_append, hlast]
    refine ⟨hsub.append (List.Sublist.refl _), fun asked hin => ?_⟩
    rcases List.mem_append.mp hin with hin | hin
    · obtain ⟨record, hrecord, hasked⟩ := hof asked hin
      exact ⟨record, List.mem_append_left _ hrecord, hasked⟩
    · rw [List.mem_singleton.mp hin]
      exact ⟨payload, List.mem_append_right _ List.mem_cons_self, hrequest⟩
  | pushing op _ hop _ ih => rwa [LivePushes.requests_step _ hop]

/-- The message of a connection that a copy is of; a delivery report bears the identifier of another. -/
def ManagerLoop.sourceOf (s : ManagerLoop ι) (i : ι) (copy : LiveCopy) : Option (InHand ι) :=
  if isReceived copy.msg.msgType then none
  else (s.sent i).find? fun m => m.message.serverId = copy.msg.serverId

theorem PushRequest.For.letterId {request : PushRequest} {p : UserId × Msg} (h : request.For p) :
    Sandcat.letterId (.json p.2) = request.letterId := by
  cases request with
  | single msg =>
    obtain ⟨hmsg, -⟩ := h
    rw [hmsg]
    rfl
  | group msg members =>
    rcases h with rfl | ⟨mem, _, rfl⟩ <;> rfl

theorem sourceOf_some {i : ι} {copy : LiveCopy} {m : InHand ι} (h : s.sourceOf i copy = some m) :
    m ∈ s.sent i ∧ letterId (.json copy.msg) = some m.message.serverId := by
  unfold ManagerLoop.sourceOf at h
  split at h
  · cases h
  · rename_i hr
    have hid := List.find?_some h
    rw [decide_eq_true_eq] at hid
    refine ⟨List.mem_of_find?_eq_some h, ?_⟩
    simp only [letterId, if_neg hr, hid]

/-- Two messages of a connection that are in the queue in some order were handed over in it. -/
theorem Looped.handed_pair (h : Looped cfg s) (hids : (s.world.queue.filterMap letterId).Nodup) {i : ι}
    {m m' : InHand ι} (hm : m ∈ s.sent i) (hm' : m' ∈ s.sent i) (he : m ≠ m')
    (hqueue : [m.message.serverId, m'.message.serverId].Sublist (s.world.queue.filterMap letterId)) :
    [m.origin, m'.origin].Sublist (s.handed i) := by
  rcases pair_sublist hm hm' he with hpair | hpair
  · have horigins := (hpair.map InHand.origin).trans (origins_sublist s i)
    exact horigins.trans (h.published_handed i)
  · have hback := (hpair.map fun m => m.message.serverId).trans (h.sent_sublist i)
    exact absurd hback (not_pair_sublist hids hqueue)

/-- A copy of a push differs from the record in its numbers alone. -/
theorem PushRequest.Of.copy {request : PushRequest} {payload : Payload} (h : request.Of payload) {u : UserId}
    {msg' : Msg} (hfor : request.For (u, msg')) :
    ∃ msg, payload = .json msg ∧ ∃ seq sendSeq, msg' = { msg with seq, sendSeq } := by
  obtain ⟨msg, seq, rfl, hmsg⟩ := h
  refine ⟨msg, rfl, ?_⟩
  cases request with
  | single asked =>
    change asked = _ at hmsg
    exact ⟨seq, msg.sendSeq, hfor.1.trans hmsg⟩
  | group asked members =>
    change asked = _ at hmsg
    rcases hfor with he | ⟨mem, -, he⟩
    · exact ⟨seq, msg.sendSeq, (Prod.mk.inj he).2.trans hmsg⟩
    · refine ⟨mem.curSeq, 0, (Prod.mk.inj he).2.trans ?_⟩
      rw [hmsg]

/-- From one websocket to another: two messages of a connection that are no delivery reports are pushed to a
client in the order in which they were handed over, or the first of them was left behind. Nothing is pushed that
was not in the queue, and nothing of it is changed but its numbers. -/
theorem pushed_as_handed (h : EndToEnd cfg net s handled live)
    (hids : (s.world.queue.filterMap letterId).Nodup) (i : ι) (a : Addr) :
    ((live.received a).Pairwise fun copy copy' => live.Overtaken copy'.push a ∨
      ∀ m m', s.sourceOf i copy = some m → s.sourceOf i copy' = some m' →
        m = m' ∨ [m.origin, m'.origin].Sublist (s.handed i)) ∧
      ∀ copy ∈ live.received a, ∃ msg, .json msg ∈ handled ∧
        ∃ seq sendSeq, copy.msg = { msg with seq, sendSeq } := by
  obtain ⟨hordered, hmade⟩ := pushed_in_order h.reached a
  obtain ⟨hrequests, hof⟩ := h.requests
  have hasked := hrequests.trans (h.handled_isPrefix.sublist.filterMap letterId)
  have hnodup := hids.sublist (h.looped.sent_sublist i)
  refine ⟨?_, ?_⟩
  · refine (List.Pairwise.and_mem.mp hordered).imp fun {copy copy'} hle => ?_
    obtain ⟨hcopy, hcopy', hle⟩ := hle
    refine hle.symm.imp_right fun hle m m' hm hm' => ?_
    obtain ⟨request, hrequest, hfor⟩ := hmade copy hcopy
    obtain ⟨request', hrequest', hfor'⟩ := hmade copy' hcopy'
    obtain ⟨hmem, hid⟩ := sourceOf_some hm
    obtain ⟨hmem', hid'⟩ := sourceOf_some hm'
    have hk : request.letterId = some m.message.serverId := hfor.letterId.symm.trans hid
    have hk' : request'.letterId = some m'.message.serverId := hfor'.letterId.symm.trans hid'
    by_cases he : m = m'
    · exact .inl he
    · have hne : m.message.serverId ≠ m'.message.serverId :=
        fun hserver => he (List.inj_on_of_nodup_map hnodup hmem hmem' hserver)
      have hlt : copy.push < copy'.push := by
        refine Nat.lt_of_le_of_ne hle fun hpush => hne ?_
        rw [hpush, hrequest'] at hrequest
        cases hrequest
        exact Option.some.inj (hk.symm.trans hk')
      have hpair := (pair_sublist_of_lt hrequest hrequest' hlt).filterMap PushRequest.letterId
      simp only [List.filterMap_cons, hk, hk', List.filterMap_nil] at hpair
      exact .inr (h.looped.handed_pair hids hmem hmem' he (hpair.trans hasked))
  · intro copy hcopy
    obtain ⟨request, hrequest, hfor⟩ := hmade copy hcopy
    obtain ⟨payload, hpayload, hrequest⟩ := hof request (List.mem_of_getElem? hrequest)
    obtain ⟨msg, rfl, hmsg⟩ := hrequest.copy hfor
    exact ⟨msg, hpayload, hmsg⟩

theorem EndToEnd.run (h : EndToEnd cfg net s handled live) {ops : List LiveOp}
    (hops : ∀ op ∈ ops, (∀ request, op ≠ .push request) ∧ op.Proper) :
    EndToEnd cfg net s handled (ops.foldl (LivePushes.step net) live) := by
  induction ops generalizing live with
  | nil => exact h
  | cons op ops ih =>
    obtain ⟨hop, hrest⟩ := List.forall_mem_cons.mp hops
    exact ih (h.pushing op hop.1 hop.2) hrest

end

/-- A phone of `b`. -/
def phoneOfB : Client := ⟨7, "b", "phone", .mobile⟩

/-- The turns of push `i` at a gateway with the phone of `b`. -/
def pushAlone (i : Nat) : List LiveOp :=
  let hub := Hub.empty.register "b" phoneOfB
  [.prepare (.channel i), .spawn i, .look i 1 hub, .send i 1 true, .look i 1 hub, .answer i 1 true,
    .receive i]

theorem pushAlone_allowed (i : Nat) :
    ∀ op ∈ pushAlone i, (∀ request, op ≠ .push request) ∧ op.Proper := by
  have hhub : (Hub.empty.register "b" phoneOfB).Reachable := .register phoneOfB .empty
  simp [pushAlone, LiveOp.Proper, hhub]

theorem endToEnd_hellos : ∃ (s : ManagerLoop Unit) (handled : List Payload) (live : LivePushes),
    EndToEnd .small unreachableServices s handled live ∧ (s.world.queue.filterMap letterId).Nodup ∧
      (live.received 1).filterMap (fun copy => (s.sourceOf () copy).map InHand.origin) =
        [hello, helloAgain] := by
  have hstart : EndToEnd .small unreachableServices (ManagerLoop.start oneGateway : ManagerLoop Unit) []
      .start := .start oneGateway rfl
  have hconnected := hstart.pushing (.prepare (.change (.insert 1 ()) true)) (by simp) trivial
  have htaken := (hconnected.gateway (.hand () hello (by decide))).gateway (.take () hello [] rfl rfl)
  have hsent := (htaken.gateway (.number _ rfl)).gateway (.send _ "1" true (.ok "") rfl fun _ => rfl)
  have hreplied := hsent.gateway (.reply _ _ rfl)
  have htaken := (hreplied.gateway (.hand () helloAgain (by decide))).gateway (.take () helloAgain [] rfl rfl)
  have hsent := (htaken.gateway (.number _ rfl)).gateway (.send _ "2" true (.ok "") rfl fun _ => rfl)
  have hfirst := (hsent.consume _ _ _ _ (.single { hello with sendSeq := 1, serverId := "1", seq := 1 })
    rfl rfl (Prog.faulty_exec _ _) ⟨_, 1, rfl, rfl⟩).run (pushAlone_allowed 0)
  have hsecond := (hfirst.consume _ _ _ _
    (.single { helloAgain with sendSeq := 2, serverId := "2", seq := 2 })
    (handleMsg_sending .small _ _).1 rfl (Prog.faulty_exec _ _) ⟨_, 2, rfl, rfl⟩).run (pushAlone_allowed 1)
  refine ⟨_, _, _, hsecond, ?_, by decide⟩
  dsimp only
  rw [← Prog.after, (handleMsg_sending .small _ _).1, ← Prog.after, (handleMsg_sending .small _ _).1]
  decide

theorem pushed_as_handed_hellos : ∃ (s : ManagerLoop Unit) (handled : List Payload) (live : LivePushes),
    (live.received 1).filterMap (fun copy => (s.sourceOf () copy).map InHand.origin) = [hello, helloAgain] ∧
      ((live.received 1).Pairwise fun copy copy' => live.Overtaken copy'.push 1 ∨
        ∀ m m', s.sourceOf () copy = some m → s.sourceOf () copy' = some m' →
          m = m' ∨ [m.origin, m'.origin].Sublist (s.handed ())) ∧
      ∀ copy ∈ live.received 1, ∃ msg, .json msg ∈ handled ∧
        ∃ seq sendSeq, copy.msg = { msg with seq, sendSeq } := by
  obtain ⟨s, handled, live, h, hids, hsources⟩ := endToEnd_hellos
  exact ⟨s, handled, live, hsources, pushed_as_handed h hids () 1⟩

end Sandcat
