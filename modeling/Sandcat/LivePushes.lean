import Sandcat.PushRaces
import Sandcat.Delivery

/-!
# The order of live messages

The consumer pushes one message after another, and each gateway works on the requests that it was sent, a
look into its hub and a send at a time. A push to a group ends at the first gateway that has succeeded, so
what another gateway has still to do is left behind by the pushes that follow.
-/

namespace Sandcat

/-- What a handler of the gateway does next: a look into the hub, for the clients of a user or for the
sender's other platform, or a send. -/
inductive HubTask where
  | toClients (id : UserId) (msg : Msg)
  | toSelf (id : UserId) (msg : Msg)
  | send (client : Client) (msg : Msg)

namespace HubTask

/-- The sends that a look comes to. -/
def sends (hub : Hub) : HubTask → List (Client × Msg)
  | .toClients id msg =>
    match hub id with
    | some clients => Hub.sendMsgToClients clients msg
    | none => []
  | .toSelf id msg => hub.sendToSelf id msg
  | .send client msg => [(client, msg)]

/-- Whom it is for. -/
def target : HubTask → UserId × Msg
  | .toClients id msg => (id, msg)
  | .toSelf id msg => (id, msg)
  | .send client msg => (client.userId, msg)

end HubTask

/-- What a push asks of the gateways. -/
inductive PushRequest where
  | single (msg : Msg)
  | group (msg : Msg) (members : List GroupMemSeq)

namespace PushRequest

def kind : PushRequest → PushKind
  | .single _ => .single
  | .group _ _ => .group

def message : PushRequest → Msg
  | .single msg => msg
  | .group msg _ => msg

/-- `send_msg_to_user` and `send_group_msg_to_user`, look by look. -/
def tasks : PushRequest → List HubTask
  | .single msg => [.toClients msg.receiverId msg, .toSelf msg.senderId msg]
  | .group msg members =>
    .toSelf msg.senderId msg ::
      members.map fun mem => .toClients mem.memId { msg with sendSeq := 0, seq := mem.curSeq }

/-- Who is to get what. -/
def For : PushRequest → UserId × Msg → Prop
  | .single msg, p => p.2 = msg ∧ (p.1 = msg.receiverId ∨ p.1 = msg.senderId)
  | .group msg members, p => p = (msg.senderId, msg) ∨
      ∃ mem ∈ members, p = (mem.memId, { msg with sendSeq := 0, seq := mem.curSeq })

theorem for_tasks {request : PushRequest} {task : HubTask} (h : task ∈ request.tasks) :
    request.For task.target := by
  cases request with
  | single msg =>
    simp only [tasks, List.mem_cons, List.not_mem_nil, or_false] at h
    rcases h with rfl | rfl
    · exact ⟨rfl, .inl rfl⟩
    · exact ⟨rfl, .inr rfl⟩
  | group msg members =>
    simp only [tasks, List.mem_cons, List.mem_map] at h
    rcases h with rfl | ⟨mem, hmem, rfl⟩
    · exact .inl rfl
    · exact .inr ⟨mem, hmem, rfl⟩

/-- On a hub that stays as it is, the handlers send what the model of one request sends. -/
theorem sends_single (hub : Hub) (msg : Msg) :
    (PushRequest.single msg).tasks.flatMap (HubTask.sends hub) = hub.sendSingleMsg msg.receiverId msg := by
  cases hclients : hub msg.receiverId with
  | none => simp [tasks, HubTask.sends, Hub.sendSingleMsg, hclients]
  | some clients => simp [tasks, HubTask.sends, Hub.sendSingleMsg, hclients]

theorem sends_group (hub : Hub) (msg : Msg) (members : List GroupMemSeq) :
    (PushRequest.group msg members).tasks.flatMap (HubTask.sends hub) = hub.sendGroup members msg := by
  have hmembers : ∀ m : Msg, members.flatMap (fun mem =>
      HubTask.sends hub (.toClients mem.memId { m with seq := mem.curSeq })) =
        hub.sendMembers members m := by
    induction members with
    | nil => exact fun _ => rfl
    | cons mem members ih =>
      intro m
      rw [List.flatMap_cons, Hub.sendMembers]
      cases hclients : hub mem.memId with
      | none => simpa [HubTask.sends, hclients] using ih m
      | some clients => simpa [HubTask.sends, hclients] using ih { m with seq := mem.curSeq }
  simp only [tasks, List.flatMap_cons, List.flatMap_map, Hub.sendGroup]
  exact congrArg _ (hmembers { msg with sendSeq := 0 })

end PushRequest

/-- The clients that a look finds are its user's. -/
theorem HubTask.target_sends {hub : Hub} (h : hub.Reachable) (task : HubTask) {p : Client × Msg}
    (hp : p ∈ task.sends hub) : (HubTask.send p.1 p.2).target = task.target := by
  cases task with
  | toClients id msg =>
    simp only [HubTask.sends] at hp
    cases hid : hub id with
    | none =>
      rw [hid] at hp
      cases hp
    | some clients =>
      rw [hid] at hp
      dsimp only at hp
      rw [h.shape.sendMsgToClients hid] at hp
      obtain ⟨c, hc, rfl⟩ := List.mem_map.mp hp
      exact congrArg (·, msg) ((h.shape id clients hid).2.2 c hc)
  | toSelf id msg =>
    simp only [HubTask.sends, Hub.sendToSelf] at hp
    cases hid : hub id with
    | none =>
      rw [hid] at hp
      cases hp
    | some clients =>
      rw [hid] at hp
      dsimp only at hp
      split at hp
      · rename_i sender hfind
        obtain rfl := List.mem_singleton.mp hp
        exact congrArg (·, msg) ((h.shape id clients hid).2.2 sender (List.mem_of_find?_eq_some hfind))
      · cases hp
  | send client msg =>
    obtain rfl := List.mem_singleton.mp hp
    rfl

/-- A message that was sent to a client, with the push that it is of. -/
structure LiveCopy where
  push : Nat
  client : Client
  msg : Msg

/-- The pushes of the consumer in their order, what the gateways have still to do for each, the answers
that have come back (`true` for a success), and what the pushes have sent to the clients of each gateway.
The replies of the gateway's own manager are not among it. -/
structure LivePushes where
  requests : List PushRequest
  pushes : PushRun Nat
  tasks : Nat → Addr → List HubTask
  answers : List (Nat × Addr × Bool)
  received : Addr → List LiveCopy

/-- A push that is over. -/
def PushStage.settled : PushStage → Bool
  | .pushing _ p => p.returned
  | .failed _ => true
  | .panicked => true
  | _ => false

/-- What the registry and the way to the channel consist of. -/
def PushOp.prepares {ι : Type} : PushOp ι → Bool
  | .change _ _ | .query _ _ | .connect _ _ | .channel _ => true
  | _ => false

/-- `look` and `send` are turns of the handler of a request at a gateway, the one with the hub of the
moment, the other with a socket that may fail. -/
inductive LiveOp where
  | push (request : PushRequest)
  | prepare (op : PushOp Nat)
  | spawn (i : Nat)
  | look (i : Nat) (a : Addr) (hub : Hub)
  | send (i : Nat) (a : Addr) (sent : Bool)
  | answer (i : Nat) (a : Addr) (ok : Bool)
  | receive (i : Nat)

/-- Hubs are those of a gateway. -/
def LiveOp.Proper : LiveOp → Prop
  | .look _ _ hub => hub.Reachable
  | _ => True

namespace LivePushes

/-- `PusherService::new`. -/
def start : LivePushes := ⟨[], PushRun.start [], fun _ _ => [], [], fun _ => []⟩

def setTasks (s : LivePushes) (i : Nat) (a : Addr) (tasks : List HubTask) : LivePushes :=
  { s with tasks := Function.update s.tasks i (Function.update (s.tasks i) a tasks) }

/-- The consumer has no push under way. -/
def ready (s : LivePushes) : Bool :=
  s.requests.isEmpty || (s.pushes.stages (s.requests.length - 1)).settled

/-- The consumer goes on to the next push when the last is over. A gateway answers with a success when its
handler is through; a call that fails may leave the handler at work. -/
def step (net : Addressing) (s : LivePushes) : LiveOp → LivePushes
  | .push request =>
    if s.ready then
      { s with
        requests := s.requests ++ [request]
        pushes := s.pushes.step net (.check s.requests.length request.kind) }
    else s
  | .prepare op => if op.prepares then { s with pushes := s.pushes.step net op } else s
  | .spawn i =>
    match s.requests[i]?, s.pushes.stages i with
    | some request, .spawning _ =>
      { s with
        pushes := s.pushes.step net (.spawn i)
        tasks := Function.update s.tasks i fun a => if a ∈ s.pushes.wsRpcList then request.tasks else [] }
    | _, _ => s
  | .look i a hub =>
    match s.tasks i a with
    | task :: rest => s.setTasks i a ((task.sends hub).map (fun p => .send p.1 p.2) ++ rest)
    | [] => s
  | .send i a sent =>
    match s.tasks i a with
    | .send client msg :: rest =>
      let s := s.setTasks i a rest
      if sent then
        { s with received := Function.update s.received a (s.received a ++ [⟨i, client, msg⟩]) }
      else s
    | _ => s
  | .answer i a ok =>
    match s.pushes.stages i with
    | .pushing _ p =>
      if a ∈ p.inFlight ∧ (ok = true → (s.tasks i a).isEmpty = true) then
        { s with
          pushes := s.pushes.step net (.event i (fun _ => !ok) (.complete a))
          answers := s.answers ++ [(i, a, ok)] }
      else s
    | _ => s
  | .receive i => { s with pushes := s.pushes.step net (.event i (fun _ => false) .receive) }

/-- The runs, whatever the order of the turns. -/
inductive Reached (net : Addressing) : LivePushes → Prop where
  | start : Reached net start
  | step {s : LivePushes} (op : LiveOp) : Reached net s → op.Proper → Reached net (s.step net op)

/-- A gateway may still be at work on a push that the consumer has left: its call had failed, or the push
was one to a group and another gateway had succeeded. -/
def Overtaken (s : LivePushes) (i : Nat) (a : Addr) : Prop :=
  (i, a, false) ∈ s.answers ∨
    (∃ p, s.pushes.stages i = .pushing .group p) ∧ ∃ b, b ≠ a ∧ (i, b, true) ∈ s.answers

end LivePushes

namespace PushRun

variable (net : Addressing) {s : PushRun Nat}

theorem stages_enter_of_ne {i j : Nat} (h : j ≠ i) (stage : PushStage) :
    (s.enter i stage).stages j = s.stages j :=
  Function.update_of_ne h ..

theorem stages_apply (c : Changes.Change Addr Unit) : (s.apply c).stages = s.stages := by
  cases c <;> rfl

/-- A request that has not begun to push enters a stage in which it does not push. -/
theorem stages_enter_prepared {s' : PushRun Nat} (i j : Nat) {stage : PushStage} (hs' : s'.stages = s.stages)
    (hold : s.stages i ≠ .idle ∧ (s.stages i).settled = false ∧ ∀ kind p, s.stages i ≠ .pushing kind p)
    (hnew : ∀ kind p, stage ≠ .pushing kind p) :
    (s'.enter i stage).stages j = s.stages j ∨
      (s.stages j ≠ .idle ∧ (s.stages j).settled = false ∧ ∀ kind p, s.stages j ≠ .pushing kind p) ∧
        ∀ kind p, (s'.enter i stage).stages j ≠ .pushing kind p := by
  by_cases hj : j = i
  · subst hj
    rw [enter_stages]
    exact .inr ⟨hold, hnew⟩
  · exact .inl ((stages_enter_of_ne hj stage).trans (congrFun hs' j))

/-- On its way to the channel a push goes from one unfinished stage to another, or it ends. -/
theorem stages_prepare {op : PushOp Nat} (hop : op.prepares = true) (j : Nat) :
    (s.step net op).stages j = s.stages j ∨
      (s.stages j ≠ .idle ∧ (s.stages j).settled = false ∧ ∀ kind p, s.stages j ≠ .pushing kind p) ∧
        ∀ kind p, (s.step net op).stages j ≠ .pushing kind p := by
  cases op with
  | check i kind => cases hop
  | spawn i => cases hop
  | event i fails e => cases hop
  | change c connects =>
    left
    simp only [step]
    split
    · rfl
    · rw [stages_apply]
  | query i answer =>
    simp only [step]
    split
    · rename_i hstage
      exact stages_enter_prepared i j rfl (by simp [hstage, PushStage.settled]) (by simp)
    · rename_i hstage
      exact stages_enter_prepared i j rfl (by simp [hstage, PushStage.settled]) (by simp)
    · exact .inl rfl
  | connect i connects =>
    simp only [step]
    split
    · rename_i hstage
      split
      · exact stages_enter_prepared i j (stages_apply _) (by simp [hstage, PushStage.settled]) (by simp)
      · exact stages_enter_prepared i j rfl (by simp [hstage, PushStage.settled]) (by simp)
    · exact .inl rfl
  | channel i =>
    simp only [step]
    split
    · rename_i hstage
      refine stages_enter_prepared i j rfl (by simp [hstage, PushStage.settled]) ?_
      split <;> simp
    · exact .inl rfl

theorem stages_check (i : Nat) (kind : PushKind) (h : s.stages i = .idle) (j : Nat) :
    (j ≠ i → (s.step net (.check i kind)).stages j = s.stages j) ∧
      ((s.step net (.check i kind)).stages i).settled = false ∧
      ∀ kind' p, (s.step net (.check i kind)).stages i ≠ .pushing kind' p := by
  simp only [step, h]
  refine ⟨fun hj => stages_enter_of_ne hj _, ?_⟩
  rw [enter_stages]
  split
  · exact ⟨rfl, by simp⟩
  · exact ⟨rfl, by simp⟩

theorem stages_spawn {i : Nat} {kind : PushKind} (h : s.stages i = .spawning kind) :
    (s.step net (.spawn i)).stages =
      Function.update s.stages i (.pushing kind ⟨s.wsRpcList, s.wsRpcList, [], false, false⟩) := by
  simp only [step, h]
  rfl

/-- A send of a push is through. -/
theorem stages_complete {i : Nat} {kind : PushKind} {p : Push} (h : s.stages i = .pushing kind p)
    (fails : Addr → Bool) {a : Addr} (ha : a ∈ p.inFlight) : ∃ p',
      (s.step net (.event i fails (.complete a))).stages = Function.update s.stages i (.pushing kind p') ∧
        p'.inFlight = p.inFlight.erase a ∧ p'.returned = p.returned ∧
        ∀ r ∈ p'.channel, r ∈ p.channel ∨ Push.report kind fails a = some r := by
  cases hp : { p with list := s.wsRpcList }.step kind fails (.complete a) with
  | none =>
    simp only [Push.step, if_pos ha] at hp
    split at hp <;> cases hp
  | some p' =>
    refine ⟨p', by simp only [step, h, hp, enter], ?_⟩
    obtain ⟨-, ⟨-, rfl⟩ | ⟨r, hr, rfl⟩⟩ := Push.step_complete hp
    · exact ⟨rfl, rfl, fun _ hin => .inl hin⟩
    · unfold Push.send
      split
      · exact ⟨rfl, rfl, fun _ hin => .inl hin⟩
      · refine ⟨rfl, rfl, fun r' hin => ?_⟩
        rcases List.mem_append.mp hin with hin | hin
        · exact .inl hin
        · exact .inr (hr.trans (congrArg some (List.mem_singleton.mp hin).symm))

/-- The loop of a push takes a turn, if it can. -/
theorem stages_receive (i : Nat) (fails : Addr → Bool) :
    (s.step net (.event i fails .receive)).stages = s.stages ∨ ∃ kind p p',
      s.stages i = .pushing kind p ∧
        (s.step net (.event i fails .receive)).stages = Function.update s.stages i (.pushing kind p') ∧
        p'.inFlight = p.inFlight ∧ p.returned = false ∧ p'.channel ⊆ p.channel ∧
        (p'.returned = true → .ok () ∈ p.channel ∨ p.inFlight = []) := by
  simp only [step]
  split
  · rename_i kind p hi
    split
    · rename_i p' hp
      refine .inr ⟨kind, p, p', hi, rfl, ?_⟩
      obtain ⟨hret, ⟨a, rest, hc, rfl⟩ | ⟨rest, hc, rfl⟩ | ⟨hc, hf, rfl⟩⟩ := Push.step_receive hp
      · have hchannel : p.channel = .error a :: rest := hc
        refine ⟨rfl, hret, hchannel ▸ List.subset_cons_self .., fun ht => ?_⟩
        exact absurd (hret.symm.trans ht) (by decide)
      · have hchannel : p.channel = .ok () :: rest := hc
        exact ⟨rfl, hret, hchannel ▸ List.subset_cons_self .., fun _ => .inl (hchannel ▸ List.mem_cons_self)⟩
      · exact ⟨rfl, hret, List.Subset.refl _, fun _ => .inr hf⟩
    · exact .inl rfl
  · exact .inl rfl

end PushRun

namespace LivePushes

variable {net : Addressing} {s t : LivePushes} {op : LiveOp}

/-- What a step comes to: nothing, or one of these changes. -/
inductive Turn (net : Addressing) (s : LivePushes) : LiveOp → LivePushes → Prop where
  | stay (op : LiveOp) : Turn net s op s
  | push (request : PushRequest) : s.ready = true →
      Turn net s (.push request)
        { s with
          requests := s.requests ++ [request]
          pushes := s.pushes.step net (.check s.requests.length request.kind) }
  | prepare (op : PushOp Nat) : op.prepares = true →
      Turn net s (.prepare op) { s with pushes := s.pushes.step net op }
  | spawn (i : Nat) {request : PushRequest} {kind : PushKind} : s.requests[i]? = some request →
      s.pushes.stages i = .spawning kind →
      Turn net s (.spawn i)
        { s with
          pushes := s.pushes.step net (.spawn i)
          tasks := Function.update s.tasks i fun a => if a ∈ s.pushes.wsRpcList then request.tasks else [] }
  | look (i : Nat) (a : Addr) (hub : Hub) {task : HubTask} {rest : List HubTask} :
      s.tasks i a = task :: rest →
      Turn net s (.look i a hub)
        (s.setTasks i a ((task.sends hub).map (fun p => .send p.1 p.2) ++ rest))
  | lose (i : Nat) (a : Addr) {client : Client} {msg : Msg} {rest : List HubTask} :
      s.tasks i a = .send client msg :: rest → Turn net s (.send i a false) (s.setTasks i a rest)
  | send (i : Nat) (a : Addr) {client : Client} {msg : Msg} {rest : List HubTask} :
      s.tasks i a = .send client msg :: rest →
      Turn net s (.send i a true)
        { s.setTasks i a rest with
          received := Function.update s.received a (s.received a ++ [⟨i, client, msg⟩]) }
  | answer (i : Nat) (a : Addr) (ok : Bool) {kind : PushKind} {p : Push} :
      s.pushes.stages i = .pushing kind p → a ∈ p.inFlight →
      (ok = true → (s.tasks i a).isEmpty = true) →
      Turn net s (.answer i a ok)
        { s with
          pushes := s.pushes.step net (.event i (fun _ => !ok) (.complete a))
          answers := s.answers ++ [(i, a, ok)] }
  | receive (i : Nat) : Turn net s (.receive i)
      { s with pushes := s.pushes.step net (.event i (fun _ => false) .receive) }

theorem turn_step (net : Addressing) (s : LivePushes) (op : LiveOp) : Turn net s op (s.step net op) := by
  cases op with
  | push request =>
    simp only [step]
    split
    · rename_i hready
      exact .push request hready
    · exact .stay _
  | prepare op =>
    simp only [step]
    split
    · rename_i hop
      exact .prepare op hop
    · exact .stay _
  | spawn i =>
    simp only [step]
    split
    · rename_i hrequest hstage
      exact .spawn i hrequest hstage
    · exact .stay _
  | look i a hub =>
    simp only [step]
    split
    · rename_i ha
      exact .look i a hub ha
    · exact .stay _
  | send i a sent =>
    simp only [step]
    split
    · rename_i ha
      cases sent with
      | true => exact .send i a ha
      | false => exact .lose i a ha
    · exact .stay _
  | answer i a ok =>
    simp only [step]
    split
    · rename_i hi
      split
      · rename_i hguard
        exact .answer i a ok hi hguard.1 hguard.2
      · exact .stay _
    · exact .stay _
  | receive i => exact .receive i

/-- How far the pushes are, and which of them have left something behind. -/
structure Sound (s : LivePushes) : Prop where
  fresh : ∀ i, s.requests.length ≤ i → s.pushes.stages i = .idle
  settled : ∀ i, i + 1 < s.requests.length → (s.pushes.stages i).settled = true
  working : ∀ i a, s.tasks i a ≠ [] → ∃ kind p, s.pushes.stages i = .pushing kind p ∧
    (a ∈ p.inFlight ∨ (i, a, false) ∈ s.answers)
  answered : ∀ i a ok, (i, a, ok) ∈ s.answers → (∃ kind p, s.pushes.stages i = .pushing kind p) ∧
    (ok = true → s.tasks i a = [])
  left : ∀ i kind p, s.pushes.stages i = .pushing kind p →
    (.ok () ∈ p.channel ∨ p.returned = true ∧ p.inFlight ≠ []) →
      kind = .group ∧ ∃ b, (i, b, true) ∈ s.answers

theorem sound_start : start.Sound where
  fresh := fun _ _ => rfl
  settled := fun _ h => absurd h (by simp [start])
  working := fun _ _ h => absurd rfl h
  answered := fun _ _ _ h => nomatch h
  left := fun _ _ _ h => nomatch h

theorem Sound.lt_of_pushing (h : s.Sound) {i : Nat} {kind : PushKind} {p : Push}
    (hp : s.pushes.stages i = .pushing kind p) : i < s.requests.length := by
  by_contra hi
  rw [h.fresh i (by omega)] at hp
  cases hp

theorem Sound.push (h : s.Sound) (request : PushRequest) (hready : s.ready = true) :
    ({ s with
        requests := s.requests ++ [request]
        pushes := s.pushes.step net (.check s.requests.length request.kind) } : LivePushes).Sound := by
  have hcheck := PushRun.stages_check net s.requests.length request.kind (h.fresh _ le_rfl)
  have hpushing : ∀ i kind p,
      (s.pushes.step net (.check s.requests.length request.kind)).stages i = .pushing kind p →
        s.pushes.stages i = .pushing kind p := by
    intro i kind p hi
    by_cases he : i = s.requests.length
    · subst he
      exact absurd hi ((hcheck s.requests.length).2.2 kind p)
    · rwa [(hcheck i).1 he] at hi
  have hkept : ∀ i kind p, s.pushes.stages i = .pushing kind p →
      (s.pushes.step net (.check s.requests.length request.kind)).stages i = .pushing kind p := by
    intro i kind p hi
    have hlt := h.lt_of_pushing hi
    rwa [(hcheck i).1 (by omega)]
  constructor
  · intro i hi
    rw [List.length_append, List.length_singleton] at hi
    exact ((hcheck i).1 (by omega)).trans (h.fresh i (by omega))
  · intro i hi
    rw [List.length_append, List.length_singleton] at hi
    have hsettled : (s.pushes.stages i).settled = true := by
      rcases Bool.or_eq_true_iff.mp hready with hnone | hlast
      · rw [List.isEmpty_iff.mp hnone] at hi
        exact absurd hi (by simp)
      · by_cases he : i = s.requests.length - 1
        · rwa [he]
        · exact h.settled i (by omega)
    rwa [(hcheck i).1 (by omega)]
  · intro i a htasks
    obtain ⟨kind, p, hi, hwork⟩ := h.working i a htasks
    exact ⟨kind, p, hkept i kind p hi, hwork⟩
  · intro i a ok hin
    obtain ⟨⟨kind, p, hi⟩, hok⟩ := h.answered i a ok hin
    exact ⟨⟨kind, p, hkept i kind p hi⟩, hok⟩
  · exact fun i kind p hi => h.left i kind p (hpushing i kind p hi)

theorem Sound.prepare (h : s.Sound) {op : PushOp Nat} (hop : op.prepares = true) :
    ({ s with pushes := s.pushes.step net op } : LivePushes).Sound := by
  have hstages := fun i => PushRun.stages_prepare net hop (s := s.pushes) i
  have hpushing : ∀ i kind p, (s.pushes.step net op).stages i = .pushing kind p ↔
      s.pushes.stages i = .pushing kind p := by
    intro i kind p
    rcases hstages i with he | ⟨⟨-, -, hold⟩, hnew⟩
    · rw [he]
    · exact iff_of_false (hnew kind p) (hold kind p)
  constructor
  · intro i hi
    rcases hstages i with he | ⟨⟨hidle, -⟩, -⟩
    · exact he.trans (h.fresh i hi)
    · exact absurd (h.fresh i hi) hidle
  · intro i hi
    have hold := h.settled i hi
    rcases hstages i with he | ⟨⟨-, hunsettled, -⟩, -⟩
    · rwa [he]
    · rw [hunsettled] at hold
      cases hold
  · intro i a htasks
    obtain ⟨kind, p, hi, hwork⟩ := h.working i a htasks
    exact ⟨kind, p, (hpushing i kind p).mpr hi, hwork⟩
  · intro i a ok hin
    obtain ⟨⟨kind, p, hi⟩, hok⟩ := h.answered i a ok hin
    exact ⟨⟨kind, p, (hpushing i kind p).mpr hi⟩, hok⟩
  · exact fun i kind p hi => h.left i kind p ((hpushing i kind p).mp hi)

/-- A push has spawned its sends, or one of its events has come; `more` are the answers it has brought. -/
theorem Sound.move (h : s.Sound) {i : Nat} {kind : PushKind} {p' : Push} {t : LivePushes}
    {more : List (Nat × Addr × Bool)} (hrequests : t.requests = s.requests)
    (hstages : t.pushes.stages = Function.update s.pushes.stages i (.pushing kind p'))
    (hanswers : t.answers = s.answers ++ more) (hidle : s.pushes.stages i ≠ .idle)
    (hsettled : (s.pushes.stages i).settled = true → p'.returned = true)
    (htasks : ∀ j, j ≠ i → t.tasks j = s.tasks j)
    (hmore : ∀ j a ok, (j, a, ok) ∈ more → j = i)
    (hworking : ∀ a, t.tasks i a ≠ [] → a ∈ p'.inFlight ∨ (i, a, false) ∈ t.answers)
    (hanswered : ∀ a, (i, a, true) ∈ t.answers → t.tasks i a = [])
    (hleft : (.ok () ∈ p'.channel ∨ p'.returned = true ∧ p'.inFlight ≠ []) →
      kind = .group ∧ ∃ b, (i, b, true) ∈ t.answers) : t.Sound := by
  have hself : t.pushes.stages i = .pushing kind p' := by rw [hstages, Function.update_self]
  have hother : ∀ j, j ≠ i → t.pushes.stages j = s.pushes.stages j := by
    intro j hj
    rw [hstages, Function.update_of_ne hj]
  have hold : ∀ j a ok, j ≠ i → ((j, a, ok) ∈ t.answers ↔ (j, a, ok) ∈ s.answers) := by
    intro j a ok hj
    rw [hanswers, List.mem_append]
    exact or_iff_left fun hin => hj (hmore j a ok hin)
  constructor
  · intro j hj
    rw [hrequests] at hj
    have hne : j ≠ i := by
      rintro rfl
      exact hidle (h.fresh j hj)
    exact (hother j hne).trans (h.fresh j hj)
  · intro j hj
    rw [hrequests] at hj
    by_cases he : j = i
    · subst he
      rw [hself]
      exact hsettled (h.settled j hj)
    · rw [hother j he]
      exact h.settled j hj
  · intro j a hwork
    by_cases he : j = i
    · subst he
      exact ⟨kind, p', hself, hworking a hwork⟩
    · rw [htasks j he] at hwork
      obtain ⟨kind', q, hj, hq⟩ := h.working j a hwork
      refine ⟨kind', q, (hother j he).trans hj, hq.imp_right ?_⟩
      exact (hold j a false he).mpr
  · intro j a ok hin
    by_cases he : j = i
    · subst he
      refine ⟨⟨kind, p', hself⟩, ?_⟩
      rintro rfl
      exact hanswered a hin
    · obtain ⟨⟨kind', q, hj⟩, hok⟩ := h.answered j a ok ((hold j a ok he).mp hin)
      exact ⟨⟨kind', q, (hother j he).trans hj⟩, fun ht => (congrFun (htasks j he) a).trans (hok ht)⟩
  · intro j kind' q hj hq
    by_cases he : j = i
    · subst he
      rw [hself] at hj
      cases hj
      exact hleft hq
    · obtain ⟨hkind, b, hb⟩ := h.left j kind' q ((hother j he).symm.trans hj) hq
      exact ⟨hkind, b, (hold j b true he).mpr hb⟩

theorem Sound.spawn (h : s.Sound) {i : Nat} {request : PushRequest} {kind : PushKind}
    (hstage : s.pushes.stages i = .spawning kind) :
    ({ s with
        pushes := s.pushes.step net (.spawn i)
        tasks := Function.update s.tasks i fun a =>
          if a ∈ s.pushes.wsRpcList then request.tasks else [] } : LivePushes).Sound := by
  have hnone : ∀ a ok, (i, a, ok) ∉ s.answers := by
    intro a ok hin
    obtain ⟨⟨kind', p, hp⟩, -⟩ := h.answered i a ok hin
    rw [hstage] at hp
    cases hp
  refine h.move rfl (PushRun.stages_spawn net hstage) (List.append_nil _).symm (by simp [hstage])
    (by simp [hstage, PushStage.settled]) (fun j hj => Function.update_of_ne hj ..) nofun ?_ ?_ ?_
  · intro a ha
    left
    by_contra hnot
    simp [hnot] at ha
  · exact fun a hin => absurd hin (hnone a true)
  · rintro (hin | ⟨hret, -⟩)
    · cases hin
    · cases hret

/-- A handler takes a turn. -/
theorem Sound.turn (h : s.Sound) {i : Nat} {a : Addr} {task : HubTask} {rest tasks : List HubTask}
    (ha : s.tasks i a = task :: rest) : (s.setTasks i a tasks).Sound := by
  obtain ⟨kind, p, hi, hwork⟩ := h.working i a (by simp [ha])
  refine h.move rfl (Function.update_eq_self_iff.mpr hi.symm).symm (List.append_nil _).symm (by simp [hi])
    (by simp [hi, PushStage.settled]) (fun j hj => Function.update_of_ne hj ..) nofun ?_ ?_
    (h.left i kind p hi)
  · intro b hb
    by_cases hba : b = a
    · exact hba ▸ hwork
    · simp only [setTasks, Function.update_self, Function.update_of_ne hba] at hb
      obtain ⟨kind', q, hq, hwork⟩ := h.working i b hb
      rw [hi] at hq
      cases hq
      exact hwork
  · intro b hb
    have hnil := (h.answered i b true hb).2 rfl
    by_cases hba : b = a
    · subst hba
      rw [ha] at hnil
      cases hnil
    · simpa only [setTasks, Function.update_self, Function.update_of_ne hba] using hnil

theorem Sound.answer (h : s.Sound) {i : Nat} {a : Addr} {ok : Bool} {kind : PushKind} {p : Push}
    (hi : s.pushes.stages i = .pushing kind p) (ha : a ∈ p.inFlight)
    (hdone : ok = true → (s.tasks i a).isEmpty = true) :
    ({ s with
        pushes := s.pushes.step net (.event i (fun _ => !ok) (.complete a))
        answers := s.answers ++ [(i, a, ok)] } : LivePushes).Sound := by
  have hsuccess : ∀ b, (i, b, true) ∈ s.answers ++ [(i, a, ok)] → s.tasks i b = [] := by
    intro b hb
    rcases List.mem_append.mp hb with hb | hb
    · exact (h.answered i b true hb).2 rfl
    · cases List.mem_singleton.mp hb
      exact List.isEmpty_iff.mp (hdone rfl)
  obtain ⟨p', hstages, hflight, hret, hchannel⟩ :=
    PushRun.stages_complete net hi (fun _ => !ok) ha
  refine h.move rfl hstages rfl (by simp [hi]) (by simp [hi, PushStage.settled, hret])
    (fun _ _ => rfl) (fun j b r hin => ?_) ?_ hsuccess ?_
  · cases List.mem_singleton.mp hin
    rfl
  · intro b hb
    obtain ⟨kind', q, hq, hwork⟩ := h.working i b hb
    rw [hi] at hq
    cases hq
    rcases hwork with hfl | hfail
    · by_cases hba : b = a
      · subst hba
        cases ok with
        | true => exact absurd (List.isEmpty_iff.mp (hdone rfl)) hb
        | false => exact .inr (List.mem_append_right _ List.mem_cons_self)
      · left
        rw [hflight]
        exact (List.mem_erase_of_ne hba).mpr hfl
    · exact .inr (List.mem_append_left _ hfail)
  · have hold : (.ok () ∈ p.channel ∨ p.returned = true ∧ p.inFlight ≠ []) →
        kind = .group ∧ ∃ b, (i, b, true) ∈ s.answers ++ [(i, a, ok)] := by
      intro hleft
      obtain ⟨hkind, b, hb⟩ := h.left i kind p hi hleft
      exact ⟨hkind, b, List.mem_append_left _ hb⟩
    rintro (hin | ⟨hreturned, hne⟩)
    · rcases hchannel _ hin with hin | hreport
      · exact hold (.inl hin)
      · cases kind <;> cases ok <;> cases hreport
        exact ⟨rfl, a, List.mem_append_right _ List.mem_cons_self⟩
    · refine hold (.inr ⟨hret ▸ hreturned, fun hnil => hne ?_⟩)
      rw [hflight, hnil, List.erase_nil]

theorem Sound.receive (h : s.Sound) (i : Nat) :
    ({ s with
        pushes := s.pushes.step net (.event i (fun _ => false) .receive) } : LivePushes).Sound := by
  rcases PushRun.stages_receive net i (fun _ => false) (s := s.pushes) with
    hstages | ⟨kind, p, p', hi, hstages, hflight, hret, hchannel, hend⟩
  · exact ⟨hstages ▸ h.fresh, hstages ▸ h.settled, hstages ▸ h.working, hstages ▸ h.answered,
      hstages ▸ h.left⟩
  · refine h.move rfl hstages (List.append_nil _).symm (by simp [hi])
      (by simp [hi, PushStage.settled, hret]) (fun _ _ => rfl) nofun ?_
      (fun a ha => (h.answered i a true ha).2 rfl) ?_
    · intro a ha
      obtain ⟨kind', q, hq, hwork⟩ := h.working i a ha
      rw [hi] at hq
      cases hq
      rwa [hflight]
    · rintro (hin | ⟨hreturned, hne⟩)
      · exact h.left i kind p hi (.inl (hchannel hin))
      · rcases hend hreturned with hin | hnil
        · exact h.left i kind p hi (.inl hin)
        · exact absurd (hflight.trans hnil) hne

theorem Turn.sound (ht : Turn net s op t) (h : s.Sound) : t.Sound := by
  cases ht with
  | stay => exact h
  | push request hready => exact h.push request hready
  | prepare op hop => exact h.prepare hop
  | spawn i hrequest hstage => exact h.spawn hstage
  | look i a hub ha => exact h.turn ha
  | lose i a ha => exact h.turn ha
  | @send i a client msg rest ha =>
    have hturn : (s.setTasks i a rest).Sound := h.turn ha
    exact ⟨hturn.fresh, hturn.settled, hturn.working, hturn.answered, hturn.left⟩
  | answer i a ok hi ha hdone => exact h.answer hi ha hdone
  | receive i => exact h.receive i

theorem Reached.sound (h : Reached net s) : s.Sound := by
  induction h with
  | start => exact sound_start
  | step op _ _ ih => exact (turn_step net _ op).sound ih

/-- A handler at work on a push after which another has come is one that was overtaken. -/
theorem Sound.overtaken (h : s.Sound) {i j : Nat} {a : Addr} (htasks : s.tasks i a ≠ [])
    (hij : i < j) (hj : j < s.requests.length) : s.Overtaken i a := by
  obtain ⟨kind, p, hi, hwork⟩ := h.working i a htasks
  have hsettled := h.settled i (by omega)
  rw [hi] at hsettled
  rcases hwork with hflight | hfail
  · right
    obtain ⟨rfl, b, hb⟩ := h.left i kind p hi (.inr ⟨hsettled, List.ne_nil_of_mem hflight⟩)
    refine ⟨⟨p, hi⟩, b, ?_, hb⟩
    rintro rfl
    exact htasks ((h.answered i b true hb).2 rfl)
  · exact .inl hfail

/-- A push that is sending is the same push after a step. -/
theorem Turn.pushing (ht : Turn net s op t) (h : s.Sound) {i : Nat} {kind : PushKind} {p : Push}
    (hi : s.pushes.stages i = .pushing kind p) : ∃ p', t.pushes.stages i = .pushing kind p' := by
  cases ht with
  | stay => exact ⟨p, hi⟩
  | push request _ =>
    have hlt := h.lt_of_pushing hi
    have hcheck := PushRun.stages_check net s.requests.length request.kind (h.fresh _ le_rfl) i
    exact ⟨p, (hcheck.1 (by omega)).trans hi⟩
  | prepare op hop =>
    rcases PushRun.stages_prepare net hop (s := s.pushes) i with he | ⟨⟨-, -, hold⟩, -⟩
    · exact ⟨p, he.trans hi⟩
    · exact absurd hi (hold kind p)
  | spawn j _ hj =>
    have hne : i ≠ j := by
      rintro rfl
      rw [hi] at hj
      cases hj
    exact ⟨p, by rw [PushRun.stages_spawn net hj, Function.update_of_ne hne, hi]⟩
  | look | lose | send => exact ⟨p, hi⟩
  | answer j a ok hj ha _ =>
    obtain ⟨p', hstages, -⟩ := PushRun.stages_complete net hj (fun _ => !ok) ha
    by_cases hij : i = j
    · subst hij
      rw [hi] at hj
      cases hj
      exact ⟨p', by rw [hstages, Function.update_self]⟩
    · exact ⟨p, by rw [hstages, Function.update_of_ne hij, hi]⟩
  | receive j =>
    rcases PushRun.stages_receive net j (fun _ => false) (s := s.pushes) with
      hstages | ⟨kind', q, p', hj, hstages, -⟩
    · exact ⟨p, by rw [hstages, hi]⟩
    · by_cases hij : i = j
      · subst hij
        rw [hi] at hj
        cases hj
        exact ⟨p', by rw [hstages, Function.update_self]⟩
      · exact ⟨p, by rw [hstages, Function.update_of_ne hij, hi]⟩

/-- Nothing that was asked or answered is forgotten. -/
theorem Turn.record (ht : Turn net s op t) : s.requests <+: t.requests ∧ s.answers <+: t.answers := by
  cases ht with
  | push => exact ⟨List.prefix_append _ _, List.prefix_refl _⟩
  | answer => exact ⟨List.prefix_refl _, List.prefix_append _ _⟩
  | stay | prepare | spawn | look | lose | send | receive =>
    exact ⟨List.prefix_refl _, List.prefix_refl _⟩

theorem Turn.overtaken (ht : Turn net s op t) (h : s.Sound) {i : Nat} {a : Addr} (ho : s.Overtaken i a) :
    t.Overtaken i a := by
  have hanswers := ht.record.2.subset
  rcases ho with hfail | ⟨⟨p, hi⟩, b, hne, hb⟩
  · exact .inl (hanswers hfail)
  · exact .inr ⟨ht.pushing h hi, b, hne, hanswers hb⟩

theorem mem_setTasks {i j : Nat} {a b : Addr} {tasks : List HubTask} {task : HubTask}
    (h : task ∈ (s.setTasks j b tasks).tasks i a) : task ∈ s.tasks i a ∨ (i = j ∧ a = b) ∧ task ∈ tasks := by
  by_cases hij : i = j
  · subst hij
    by_cases hab : a = b
    · subst hab
      simp only [setTasks, Function.update_self] at h
      exact .inr ⟨⟨rfl, rfl⟩, h⟩
    · simp only [setTasks, Function.update_self, Function.update_of_ne hab] at h
      exact .inl h
  · simp only [setTasks, Function.update_of_ne hij] at h
    exact .inl h

/-- Where the tasks of a handler come from. -/
theorem Turn.tasks (ht : Turn net s op t) (hop : op.Proper) {i : Nat} {a : Addr} {task : HubTask}
    (h : task ∈ t.tasks i a) : (∃ old ∈ s.tasks i a, task.target = old.target) ∨
      ∃ request, s.requests[i]? = some request ∧ task ∈ request.tasks := by
  have hkept : task ∈ s.tasks i a → ∃ old ∈ s.tasks i a, task.target = old.target :=
    fun hin => ⟨task, hin, rfl⟩
  cases ht with
  | stay | push | prepare | answer | receive => exact .inl (hkept h)
  | @spawn j request kind hrequest _ =>
    by_cases hij : i = j
    · subst hij
      simp only [Function.update_self] at h
      split at h
      · exact .inr ⟨request, hrequest, h⟩
      · cases h
    · simp only [Function.update_of_ne hij] at h
      exact .inl (hkept h)
  | @look j b hub looked rest hlooked =>
    left
    rcases mem_setTasks h with hold | ⟨⟨rfl, rfl⟩, hnew⟩
    · exact hkept hold
    · rw [hlooked]
      rcases List.mem_append.mp hnew with hnew | hnew
      · obtain ⟨p, hp, rfl⟩ := List.mem_map.mp hnew
        exact ⟨looked, List.mem_cons_self, HubTask.target_sends hop looked hp⟩
      · exact ⟨task, List.mem_cons_of_mem _ hnew, rfl⟩
  | lose j b hsend | send j b hsend =>
    left
    rcases mem_setTasks h with hold | ⟨⟨rfl, rfl⟩, hnew⟩
    · exact hkept hold
    · exact hkept (hsend ▸ List.mem_cons_of_mem _ hnew)

/-- Only a send that succeeds reaches a client. -/
theorem Turn.received (ht : Turn net s op t) (b : Addr) : t.received b = s.received b ∨
    ∃ i client msg, .send client msg ∈ s.tasks i b ∧ t.received b = s.received b ++ [⟨i, client, msg⟩] := by
  cases ht with
  | @send i a client msg rest hsend =>
    by_cases hba : b = a
    · subst hba
      exact .inr ⟨i, client, msg, hsend ▸ List.mem_cons_self, Function.update_self ..⟩
    · exact .inl (Function.update_of_ne hba ..)
  | stay | push | prepare | spawn | look | lose | answer | receive => exact .inl rfl

/-- What is pushed to clients, and what is about to be. -/
structure Traced (s : LivePushes) : Prop where
  due : ∀ i a task, task ∈ s.tasks i a → ∃ request, s.requests[i]? = some request ∧ request.For task.target
  made : ∀ a copy, copy ∈ s.received a → ∃ request, s.requests[copy.push]? = some request ∧
    request.For (copy.client.userId, copy.msg)
  ordered : ∀ a, (s.received a).Pairwise fun copy copy' =>
    copy.push ≤ copy'.push ∨ s.Overtaken copy'.push a

theorem Turn.traced (ht : Turn net s op t) (hs : s.Sound) (hop : op.Proper) (h : s.Traced) :
    t.Traced := by
  have hrequests : ∀ {i : Nat} {request : PushRequest}, s.requests[i]? = some request →
      t.requests[i]? = some request := by
    intro i request hr
    obtain ⟨more, hmore⟩ := ht.record.1
    rw [← hmore]
    exact (List.getElem?_append_left (List.getElem?_eq_some_iff.mp hr).1).trans hr
  constructor
  · intro i a task htask
    rcases ht.tasks hop htask with ⟨old, hold, he⟩ | ⟨request, hr, hin⟩
    · obtain ⟨request, hr, hfor⟩ := h.due i a old hold
      exact ⟨request, hrequests hr, he ▸ hfor⟩
    · exact ⟨request, hrequests hr, PushRequest.for_tasks hin⟩
  · intro a copy hcopy
    have hold : copy ∈ s.received a → ∃ request, t.requests[copy.push]? = some request ∧
        request.For (copy.client.userId, copy.msg) := by
      intro hin
      obtain ⟨request, hr, hfor⟩ := h.made a copy hin
      exact ⟨request, hrequests hr, hfor⟩
    rcases ht.received a with he | ⟨i, client, msg, hsend, he⟩
    · exact hold (he ▸ hcopy)
    · rw [he] at hcopy
      rcases List.mem_append.mp hcopy with hin | hin
      · exact hold hin
      · obtain rfl := List.mem_singleton.mp hin
        obtain ⟨request, hr, hfor⟩ := h.due i a _ hsend
        exact ⟨request, hrequests hr, hfor⟩
  · intro a
    have hkept := (h.ordered a).imp fun {_ _} hle => hle.imp_right (ht.overtaken hs)
    rcases ht.received a with he | ⟨i, client, msg, hsend, he⟩
    · rwa [he]
    · rw [he]
      refine List.pairwise_append.mpr ⟨hkept, List.pairwise_singleton _ _, fun copy hcopy new hnew => ?_⟩
      obtain rfl := List.mem_singleton.mp hnew
      obtain ⟨request, hr, -⟩ := h.made a copy hcopy
      rcases Nat.lt_or_ge i copy.push with hlt | hge
      · right
        have hlength := (List.getElem?_eq_some_iff.mp hr).1
        exact ht.overtaken hs (hs.overtaken (List.ne_nil_of_mem hsend) hlt hlength)
      · exact .inl hge

theorem Reached.run (h : Reached net s) {ops : List LiveOp} (hops : ∀ op ∈ ops, op.Proper) :
    Reached net (ops.foldl (LivePushes.step net) s) := by
  induction ops generalizing s with
  | nil => exact h
  | cons op ops ih =>
    obtain ⟨hop, hrest⟩ := List.forall_mem_cons.mp hops
    exact ih (h.step op hop) hrest

theorem Reached.traced (h : Reached net s) : s.Traced := by
  induction h with
  | start =>
    exact ⟨fun _ _ _ hin => (by cases hin), fun _ _ hin => (by cases hin), fun _ => List.Pairwise.nil⟩
  | step op hrun hop ih => exact (turn_step net _ op).traced hrun.sound hop ih

end LivePushes

/-- In every run, the clients of a gateway get what the pushes say, each copy for its user, and in the order
of the pushes but for what a push has left behind: its call to the gateway had failed, or it was a push to a
group and another gateway had succeeded. -/
theorem pushed_in_order {net : Addressing} {s : LivePushes} (h : LivePushes.Reached net s) (a : Addr) :
    ((s.received a).Pairwise fun copy copy' => copy.push ≤ copy'.push ∨ s.Overtaken copy'.push a) ∧
      ∀ copy ∈ s.received a, ∃ request, s.requests[copy.push]? = some request ∧
        request.For (copy.client.userId, copy.msg) :=
  ⟨h.traced.ordered a, h.traced.made a⟩

/-- A message to a group of `u`, and one to `u` alone. -/
def toGroup : Msg := { senderId := "v", receiverId := "g" }

def toUser : Msg := { senderId := "v", receiverId := "u" }

/-- A network in which no service can be reached. -/
def unreachableServices : Addressing := ⟨fun _ => none, fun _ => true⟩

/-- Two gateways, and the desktop of `u` at the second. The first has nobody to send to and answers at
once, and the message to `u` is there before that to the group. -/
def overtaking : List LiveOp :=
  let hub := Hub.empty.register "u" desk
  [.prepare (.change (.insert 1 ()) true), .prepare (.change (.insert 2 ()) true),
    .push (.group toGroup [⟨"u", 1, 5, false⟩]), .prepare (.channel 0), .spawn 0,
    .look 0 1 Hub.empty, .look 0 1 Hub.empty, .answer 0 1 true, .receive 0,
    .push (.single toUser), .prepare (.channel 1), .spawn 1,
    .look 1 2 hub, .send 1 2 true, .look 0 2 hub, .look 0 2 hub, .send 0 2 true]

theorem pushed_in_order_overtaking : ∃ s, LivePushes.Reached unreachableServices s ∧
    (s.received 2).map LiveCopy.push = [1, 0] ∧
    ((s.received 2).Pairwise fun copy copy' => copy.push ≤ copy'.push ∨ s.Overtaken copy'.push 2) ∧
      ∀ copy ∈ s.received 2, ∃ request, s.requests[copy.push]? = some request ∧
        request.For (copy.client.userId, copy.msg) := by
  have hproper : ∀ op ∈ overtaking, op.Proper := by
    have hhub : (Hub.empty.register "u" desk).Reachable := .register desk .empty
    simp [overtaking, LiveOp.Proper, hhub, Hub.Reachable.empty]
  have hstart : LivePushes.Reached unreachableServices LivePushes.start := .start
  have hrun := hstart.run hproper
  exact ⟨_, hrun, by decide, pushed_in_order hrun 2⟩

end Sandcat
