import Sandcat.GroupApi
import Sandcat.Numbering
import Sandcat.Undisturbed

/-!
# Numbers across losses of Redis

A counter in Redis is covered by a ceiling in Postgres. After a loss the counter
starts again at the ceiling, so the ceiling has to be raised whenever the script
opens a new block. `Secured` is the relation between the two stores for one
counter; it is kept by an increment whose new block is recorded, and by a reload.
-/

namespace Sandcat

open Remote Consecutive

/-- A counter, the numbers it has given out and its ceiling in the database. -/
structure Secured (seqStep : Int) (h : SeqHash) (handed : List Int) (ceiling : Int) : Prop where
  increasing : handed.Pairwise (· < ·)
  covered : (h = {} ∧ handed = [] ∧ seqStep ≤ ceiling) ∨
    ∃ cur max, h = ⟨some cur, some max⟩ ∧ (∀ x ∈ handed, x ≤ cur) ∧ cur ≤ max ∧ max ≤ ceiling

namespace Secured

variable {seqStep : Int} {h : SeqHash} {handed : List Int} {n n' : Int}

theorem mono (hs : Secured seqStep h handed n) (hn : n ≤ n') : Secured seqStep h handed n' := by
  refine ⟨hs.increasing, ?_⟩
  obtain ⟨rfl, rfl, hc⟩ | ⟨c, m, rfl, hx, hcm, hmn⟩ := hs.covered
  · exact .inl ⟨rfl, rfl, by omega⟩
  · exact .inr ⟨c, m, rfl, hx, hcm, by omega⟩

theorem ok (hs : Secured seqStep h handed n) : h.Ok := by
  obtain ⟨rfl, -, -⟩ | ⟨c, m, rfl, -, hcm, -⟩ := hs.covered
  · exact .inl ⟨rfl, rfl⟩
  · exact .inr ⟨c, m, rfl, rfl, hcm⟩

/-- A new user. -/
theorem init (hn : seqStep ≤ n) : Secured seqStep {} [] n := ⟨.nil, .inl ⟨rfl, rfl, hn⟩⟩

/-- The counter starts again at the ceiling. -/
theorem reload (hs : Secured seqStep h handed n) : Secured seqStep ⟨some n, some n⟩ handed n := by
  refine ⟨hs.increasing, .inr ⟨n, n, rfl, ?_, Int.le_refl _, Int.le_refl _⟩⟩
  intro x hx
  obtain ⟨-, rfl, -⟩ | ⟨c, m, -, hle, hcm, hmn⟩ := hs.covered
  · cases hx
  · have := hle x hx
    omega

/-- An increment, with the ceiling raised by a block if the block was full. -/
theorem bump (hstep : 1 ≤ seqStep) (hs : Secured seqStep h handed n) (hn : n ≤ n')
    (hfull : h.Full → n + seqStep ≤ n') :
    Secured seqStep (singleScript seqStep h).1 (handed ++ [h.cur + 1]) n' := by
  obtain ⟨rfl, rfl, hc⟩ | ⟨c, m, rfl, hx, hcm, hmn⟩ := hs.covered
  · refine ⟨List.pairwise_singleton _ _, .inr ⟨1, seqStep, ?_, ?_, hstep, by omega⟩⟩
    · exact singleScript_new hstep
    · simp [SeqHash.cur]
  · refine ⟨?_, ?_⟩
    · rw [List.pairwise_append]
      refine ⟨hs.increasing, List.pairwise_singleton _ _, ?_⟩
      intro a ha b hb
      have := hx a ha
      rw [List.mem_singleton.mp hb]
      simp only [SeqHash.cur, Option.getD_some]
      omega
    · have hle : ∀ x ∈ handed ++ [c + 1], x ≤ c + 1 := by
        intro x hmem
        rw [List.mem_append, List.mem_singleton] at hmem
        obtain hmem | rfl := hmem
        · have := hx x hmem
          omega
        · exact Int.le_refl _
      by_cases hlt : c < m
      · exact .inr ⟨c + 1, m, singleScript_within _ hlt, hle, by omega, by omega⟩
      · have := hfull ⟨c, m, rfl, rfl, by omega⟩
        exact .inr ⟨c + 1, m + seqStep, singleScript_full _ (by omega), hle, by omega, by omega⟩

end Secured

/-- Runs of the whole system. Users get fresh identifiers, records are handled one at
a time without a refused call, Redis may be lost and is then reloaded, and the rest
of the system may change all that is not named here. -/
inductive Operated (cfg : Config) (allowed : World → Payload → Prop) : World → Prop where
  | start : Operated cfg allowed .empty
  | createUser {w t : World} (u : UserId) : Operated cfg allowed w →
      w.redis.hashes (seqKey u) = {} → w.handed (seqKey u) = [] →
      (Db.createUser cfg u).exec w = (.ok (), t) → Operated cfg allowed t
  | handle {w : World} (payload : Payload) : Operated cfg allowed w → allowed w payload →
      (Consumer.handleMsg cfg payload).clean w = true →
      Operated cfg allowed
        { (Consumer.handleMsg cfg payload).after w with handled := w.handled + 1 }
  | reload {w : World} : Operated cfg allowed w → Operated cfg allowed w.reload
  | others {w t : World} : Operated cfg allowed w →
      (∀ u, t.redis.hashes (seqKey u) = w.redis.hashes (seqKey u)) →
      t.pg.sequence = w.pg.sequence → t.scripts = w.scripts → Operated cfg allowed t

/-- In every state of a run the receive counter of every user is secured. -/
def ReceiveDurable (cfg : Config) (allowed : World → Payload → Prop) : Prop :=
  ∀ w, Operated cfg allowed w → ∀ u n, w.pg.recMax u = some n →
    Secured cfg.seqStep (w.redis.hashes (seqKey u)) (w.handed (seqKey u)) n

/-- A removal that names nobody finds no member whose block is full. -/
def NoRollOver (w : World) (payload : Payload) : Prop :=
  ∀ msg, payload = .json msg → badRemoval msg = true →
    ∀ u ∈ w.recipients msg, w.pg.recMax u ≠ none → ¬ (w.redis.hashes (seqKey u)).Full

/-- A new user's ceilings are its first block; nothing else changes. -/
theorem createUser_exec {cfg : Config} {w t : World} {u : UserId}
    (h : (Db.createUser cfg u).exec w = (.ok (), t)) :
    t.redis = w.redis ∧ t.scripts = w.scripts ∧ ∀ v,
      t.pg.recMax v = (if v = u then some cfg.seqStep else w.pg.recMax v) ∧
        t.pg.sendMax v = if v = u then some cfg.seqStep else w.pg.sendMax v := by
  unfold Db.createUser pgCall at h
  rw [Prog.exec_request] at h
  unfold Postgres.createUser at h
  cases hu : w.pg.users.insert u with
  | none => rw [hu] at h; cases h
  | some users =>
    cases hs : w.pg.sequence.insert ⟨u, cfg.seqStep, cfg.seqStep⟩ with
    | none => rw [hu, hs] at h; cases h
    | some sequence =>
      rw [hu, hs] at h
      cases h
      refine ⟨rfl, rfl, ?_⟩
      intro v
      simp only [Postgres.recMax, Postgres.sendMax, Table.find_insert hs]
      split <;> simp

/-- A new user has an untouched counter, and the others keep theirs. -/
theorem secured_createUser {cfg : Config} {w t : World} {u v : UserId} {n : Int} {m : Option Int}
    (h : (Db.createUser cfg u).exec w = (.ok (), t)) (key : UserId → String)
    (hhash : w.redis.hashes (key u) = {}) (hhanded : w.handed (key u) = [])
    (hn : (if v = u then some cfg.seqStep else m) = some n)
    (hv : m = some n → Secured cfg.seqStep (w.redis.hashes (key v)) (w.handed (key v)) n) :
    Secured cfg.seqStep (t.redis.hashes (key v)) (t.handed (key v)) n := by
  obtain ⟨hredis, hscripts, -⟩ := createUser_exec h
  rw [hredis, World.handed_congr hscripts]
  split at hn
  · rename_i he
    cases hn
    rw [he, hhash, hhanded]
    exact .init (Int.le_refl _)
  · exact hv hn

/-- The counters after a record, when its roll-overs are recorded. -/
theorem secured_handle {cfg : Config} (hstep : 1 ≤ cfg.seqStep) {w : World} {payload : Payload}
    (hw : ∀ u n, w.pg.recMax u = some n →
      Secured cfg.seqStep (w.redis.hashes (seqKey u)) (w.handed (seqKey u)) n)
    (hno : NoRollOver w payload) (hclean : (Consumer.handleMsg cfg payload).clean w = true)
    {u : UserId} {n' : Int}
    (hn' : ((Consumer.handleMsg cfg payload).after w).pg.recMax u = some n') :
    Secured cfg.seqStep (((Consumer.handleMsg cfg payload).after w).redis.hashes (seqKey u))
      (((Consumer.handleMsg cfg payload).after w).handed (seqKey u)) n' := by
  obtain ⟨us, hnodup, hdrawn, hbad, hgrown⟩ :=
    (Consumer.ensures_handleMsg (w := w) payload).holds hclean
  change w.Drawn cfg.seqStep _ ((Consumer.handleMsg cfg payload).after w) at hdrawn
  obtain ⟨n, hn, hle, hraise⟩ := hgrown (by omega) u n' hn'
  have hu := hw u n hn
  have hinj : Function.Injective seqKey := fun a b h => seqKey_inj.mp h
  rw [hdrawn.handed, hdrawn.hashes]
  by_cases hmem : u ∈ us
  · have hkeys : (us.map seqKey).Nodup := hnodup.map hinj
    have hcount : (us.map seqKey).count (seqKey u) = 1 :=
      List.count_eq_one_of_mem hkeys (List.mem_map_of_mem hmem)
    rw [bumps_mem _ _ hkeys (List.mem_map_of_mem hmem), hcount, above_one]
    apply hu.bump hstep hle
    intro hfull
    apply hraise
    refine ⟨hmem, (singleScript_updated hstep hu.ok).mpr hfull, ?_⟩
    intro msg hmsg
    by_contra hb
    rw [Bool.not_eq_false] at hb
    rw [hbad msg hmsg hb] at hmem
    exact hno msg hmsg hb u hmem (by simp [hn]) hfull
  · have hnot : seqKey u ∉ us.map seqKey := by
      rw [List.mem_map_of_injective hinj]
      exact hmem
    rw [bumps_not_mem _ _ hnot, List.count_eq_zero.mpr hnot, above_zero, List.append_nil]
    exact hu.mono hle

/-- As long as no removal that names nobody opens a block, no number is given out twice,
whatever is lost in between. -/
theorem receive_numbers_durable {cfg : Config} (hstep : 1 ≤ cfg.seqStep) :
    ReceiveDurable cfg NoRollOver := by
  intro w hw
  induction hw with
  | start =>
    intro u n hn
    cases hn
  | @createUser w t u _ hhash hhanded hexec ih =>
    intro v n hn
    rw [((createUser_exec hexec).2.2 v).1] at hn
    exact secured_createUser hexec seqKey hhash hhanded hn (ih v n)
  | handle payload _ hno hclean ih =>
    intro u n hn
    exact secured_handle hstep ih hno hclean hn
  | @reload w _ ih =>
    intro u n hn
    rw [World.reload_pg] at hn
    have hs := (ih u n hn).reload
    rw [Postgres.recMax, Option.map_eq_some_iff] at hn
    obtain ⟨row, hrow, rfl⟩ := hn
    rw [(w.reload_hashes u).1, hrow, World.handed_congr w.reload_scripts]
    exact hs
  | @others w t _ hhash hseq hscripts ih =>
    intro u n hn
    rw [Postgres.recMax, hseq, ← Postgres.recMax] at hn
    rw [hhash, World.handed_congr hscripts]
    exact ih u n hn

def twoUsers : World :=
  (Db.createUser .small "b").after ((Db.createUser .small "a").after oneGateway)

/-- Two users, members of the group `g`. -/
def twoMembers : World :=
  let t := twoUsers
  let groupMembers : Table GroupMemberRow.key :=
    ⟨[⟨"g", "a", .owner, false⟩, ⟨"g", "b", .member, false⟩], by decide⟩
  { t with pg := { t.pg with groupMembers } }

/-- One record handled without a refused call. -/
def World.handling (w : World) (msg : Msg) : World :=
  { (Consumer.handleMsg .small (.json msg)).after w with handled := w.handled + 1 }

/-- A removal whose content is not a list of members. -/
def emptyRemoval : Msg :=
  { senderId := "a", receiverId := "g", groupId := "g", msgType := MsgType.groupRemoveMember.toI32 }

theorem twoMembers_operated (allowed : World → Payload → Prop) :
    Operated .small allowed twoMembers := by
  have hgateway : Operated .small allowed oneGateway := .others .start (fun _ => rfl) rfl rfl
  have husers : Operated .small allowed twoUsers :=
    .createUser "b" (.createUser "a" hgateway rfl rfl rfl) rfl rfl rfl
  exact .others husers (fun _ => rfl) rfl rfl

/-- A message handled, a loss, and the message once more. -/
def rehandledState : World := (twoMembers.handling hello).reload.handling hello

theorem receive_numbers_durable_reloaded :
    rehandledState.handed (seqKey "b") = [1, 2] ∧
      Secured 1 (rehandledState.redis.hashes (seqKey "b")) (rehandledState.handed (seqKey "b")) 2 := by
  have hno : ∀ w, NoRollOver w (.json hello) := by
    rintro w _ ⟨⟩ hb
    cases hb
  have hfirst : Operated .small NoRollOver (twoMembers.handling hello) :=
    .handle (.json hello) (twoMembers_operated _) (hno _) (by decide)
  have hrun : Operated .small NoRollOver rehandledState :=
    .handle (.json hello) (.reload hfirst) (hno _) (by decide)
  exact ⟨by decide, receive_numbers_durable (by decide) _ hrun "b" 2 (by decide)⟩

/-- The removal opens a block that the database does not learn of, so after a loss the
number `2` is given out a second time. -/
def reusedState : World :=
  ((twoMembers.handling hello).handling emptyRemoval).reload.handling hello

theorem receive_number_reused : ¬ ReceiveDurable .small fun _ _ => True := by
  intro h
  have hrun : Operated .small (fun _ _ => True) reusedState :=
    .handle _ (.reload (.handle _ (.handle _ (twoMembers_operated _) trivial (by decide)) trivial
      (by decide))) trivial (by decide)
  have hs := h reusedState hrun "b" 2 (by decide)
  have hhanded : reusedState.handed (seqKey "b") = [1, 2, 2] := by decide
  rw [hhanded] at hs
  exact absurd hs.increasing (by decide)

section Send

/-- Runs with senders: the gateway and the handlers of the API draw a send number and
publish, and the consumer takes the records from the queue in order. -/
inductive Sent (cfg : Config) (allowed : World → UserId → Prop) : World → Prop where
  | start : Sent cfg allowed .empty
  | createUser {w t : World} (u : UserId) : Sent cfg allowed w →
      w.redis.hashes (sendSeqKey u) = {} → w.handed (sendSeqKey u) = [] →
      (Db.createUser cfg u).exec w = (.ok (), t) → Sent cfg allowed t
  | gateway {w : World} (text : Error → String) (nanoid : String) (msg : Msg) :
      Sent cfg allowed w → allowed w msg.senderId →
      (Manager.processMessage cfg text nanoid msg).clean w = true →
      Sent cfg allowed ((Manager.processMessage cfg text nanoid msg).after w)
  | api {w : World} (nanoid : String) (u : UserId) (request : Int → Int → SendMsgRequest) :
      Sent cfg allowed w → allowed w u → (GroupApi.notify cfg nanoid u request).clean w = true →
      Sent cfg allowed ((GroupApi.notify cfg nanoid u request).after w)
  | handle {w : World} {payload : Payload} {rest : List Payload} : Sent cfg allowed w →
      w.queue = payload :: rest →
      (Consumer.handleMsg cfg payload).clean { w with queue := rest } = true →
      Sent cfg allowed ((Consumer.handleMsg cfg payload).after { w with queue := rest })
  | reload {w : World} : Sent cfg allowed w → Sent cfg allowed w.reload
  | others {w t : World} : Sent cfg allowed w →
      (∀ u, t.redis.hashes (sendSeqKey u) = w.redis.hashes (sendSeqKey u)) →
      t.pg.sequence = w.pg.sequence → t.scripts = w.scripts → t.queue = w.queue →
      Sent cfg allowed t

/-- The send numbers of a user increase, and once the queue is drained the database
covers them. -/
def SendDurable (cfg : Config) (allowed : World → UserId → Prop) : Prop :=
  ∀ w, Sent cfg allowed w → ∀ u n, w.pg.sendMax u = some n →
    (w.handed (sendSeqKey u)).Pairwise (· < ·) ∧
      (w.queue = [] → ∀ cur, (w.redis.hashes (sendSeqKey u)).curSeq = some cur → cur ≤ n)

/-- The user's current block of send numbers is not used up. -/
def SendRoom (w : World) (u : UserId) : Prop :=
  w.pg.sendMax u ≠ none → ¬ (w.redis.hashes (sendSeqKey u)).Full

/-- The send counters of a state are those of another. -/
structure SameSend (w t : World) : Prop where
  hashes : ∀ u, t.redis.hashes (sendSeqKey u) = w.redis.hashes (sendSeqKey u)
  handed : ∀ u, t.handed (sendSeqKey u) = w.handed (sendSeqKey u)
  sendMax : ∀ u, t.pg.sendMax u = w.pg.sendMax u

/-- The consumer neither draws a send number nor raises a send ceiling. -/
theorem sameSend_kept (cfg : Config) (w : World) : Kept cfg (SameSend w) where
  mongo _ _ h := ⟨h.hashes, h.handed, h.sendMax⟩
  push _ _ _ h := ⟨h.hashes, h.handed, h.sendMax⟩
  sets _ _ h := ⟨h.hashes, h.handed, h.sendMax⟩
  history _ _ h := ⟨h.hashes, h.handed, h.sendMax⟩
  recMax t p h := ⟨h.hashes, h.handed, fun u => by rw [Postgres.sendMax_bumpRec, h.sendMax]⟩
  script t us h := by
    have hnot : ∀ u, sendSeqKey u ∉ us.map seqKey := by
      intro u hu
      obtain ⟨v, -, hv⟩ := List.mem_map.mp hu
      exact sendSeqKey_ne_seqKey u v hv.symm
    refine ⟨?_, ?_, h.sendMax⟩
    · intro u
      rw [World.bumped_hashes, bumps_not_mem _ _ (hnot u), h.hashes]
    · intro u
      rw [World.bumped_handed, List.count_eq_zero.mpr (hnot u), above_zero, List.append_nil,
        h.handed]

/-- A message from the gateway draws one number of its sender. -/
theorem processMessage_draws {cfg : Config} {w : World} {text : Error → String} {nanoid : String}
    {msg : Msg} :
    ((Manager.processMessage cfg text nanoid msg).after w).outsideQueue =
      (w.bumped cfg.seqStep [sendSeqKey msg.senderId]).outsideQueue := by
  have hincr : (Cache.incrSendSeq cfg msg.senderId).exec w =
      (.ok (singleScript cfg.seqStep (w.redis.hashes (sendSeqKey msg.senderId))).2,
        w.bumped cfg.seqStep [sendSeqKey msg.senderId]) := by
    rw [Cache.incrSendSeq, Cache.evalSingle_eq, Prog.exec_update]
  rw [Manager.processMessage, Prog.after, Prog.exec_bind, Prog.exec_attempt, hincr]
  dsimp only
  rw [← Prog.after]
  apply Prog.frame_after
  apply Prog.frame_bind (Prog.frame_attempt (Producer.frame_sendMsg _ _))
  intro r
  split <;> exact Prog.frame_ret _

theorem notify_draws {cfg : Config} {w : World} {nanoid : String} {u : UserId}
    {request : Int → Int → SendMsgRequest} :
    ((GroupApi.notify cfg nanoid u request).after w).outsideQueue =
      (w.bumped cfg.seqStep [sendSeqKey u]).outsideQueue := by
  have hincr : (Cache.incrSendSeq cfg u).exec w =
      (.ok (singleScript cfg.seqStep (w.redis.hashes (sendSeqKey u))).2,
        w.bumped cfg.seqStep [sendSeqKey u]) := by
    rw [Cache.incrSendSeq, Cache.evalSingle_eq, Prog.exec_update]
  rw [GroupApi.notify, Prog.after, Prog.exec_bind, hincr]
  dsimp only
  rw [← Prog.after]
  apply Prog.frame_after
  apply Prog.frame_bind (Prog.frame_update fun _ => rfl)
  intro now
  exact Prog.frame_void (Producer.frame_sendMsg _ _)

/-- The send counter of every user is secured. -/
def SendSecured (cfg : Config) (w : World) : Prop :=
  ∀ u n, w.pg.sendMax u = some n →
    Secured cfg.seqStep (w.redis.hashes (sendSeqKey u)) (w.handed (sendSeqKey u)) n

theorem SendSecured.draw {cfg : Config} (hstep : 1 ≤ cfg.seqStep) {w t : World} {u : UserId}
    (hw : SendSecured cfg w) (hroom : SendRoom w u)
    (ht : t.outsideQueue = (w.bumped cfg.seqStep [sendSeqKey u]).outsideQueue) :
    SendSecured cfg t := by
  rw [World.eq_of_outsideQueue ht]
  intro v n hn
  change w.pg.sendMax v = some n at hn
  have hv := hw v n hn
  change Secured _ (bumps cfg.seqStep w.redis.hashes [sendSeqKey u] (sendSeqKey v))
    ((w.bumped cfg.seqStep [sendSeqKey u]).handed (sendSeqKey v)) n
  rw [World.bumped_handed]
  by_cases he : v = u
  · subst he
    rw [bumps_mem _ _ (List.nodup_singleton _) (by simp), List.count_singleton_self, above_one]
    apply hv.bump hstep (Int.le_refl n)
    intro hfull
    exact absurd hfull (hroom (by rw [hn]; simp))
  · have hnot : sendSeqKey v ∉ [sendSeqKey u] := by simp [he]
    rw [bumps_not_mem _ _ hnot, List.count_eq_zero.mpr hnot, above_zero, List.append_nil]
    exact hv

theorem SendSecured.congr {cfg : Config} {w t : World} (hw : SendSecured cfg w)
    (h : SameSend w t) : SendSecured cfg t := by
  intro u n hn
  rw [h.hashes, h.handed]
  exact hw u n (h.sendMax u ▸ hn)

theorem Sent.secured {cfg : Config} (hstep : 1 ≤ cfg.seqStep) {w : World}
    (h : Sent cfg SendRoom w) : SendSecured cfg w := by
  induction h with
  | start =>
    intro u n hn
    cases hn
  | @createUser w t u _ hhash hhanded hexec ih =>
    intro v n hn
    rw [((createUser_exec hexec).2.2 v).2] at hn
    exact secured_createUser hexec sendSeqKey hhash hhanded hn (ih v n)
  | gateway text nanoid msg _ hroom _ ih => exact ih.draw hstep hroom processMessage_draws
  | api nanoid u request _ hroom _ ih => exact ih.draw hstep hroom notify_draws
  | @handle w payload rest _ _ _ ih =>
    apply ih.congr
    exact Prog.stable_after ((sameSend_kept cfg w).handleMsg payload)
      ⟨fun _ => rfl, fun _ => rfl, fun _ => rfl⟩
  | @reload w _ ih =>
    intro u n hn
    rw [World.reload_pg] at hn
    have hs := (ih u n hn).reload
    rw [Postgres.sendMax, Option.map_eq_some_iff] at hn
    obtain ⟨row, hrow, rfl⟩ := hn
    rw [(w.reload_hashes u).2, hrow, World.handed_congr w.reload_scripts]
    exact hs
  | others _ hhash hseq hscripts _ ih =>
    apply ih.congr
    refine ⟨hhash, fun u => World.handed_congr hscripts _, ?_⟩
    intro u
    rw [Postgres.sendMax, hseq, Postgres.sendMax]

/-- As long as no send block is used up, no send number is given out twice. -/
theorem send_numbers_durable {cfg : Config} (hstep : 1 ≤ cfg.seqStep) :
    SendDurable cfg SendRoom := by
  intro w hw u n hn
  have hs := hw.secured hstep u n hn
  refine ⟨hs.increasing, ?_⟩
  intro _ cur hcur
  obtain ⟨he, -, -⟩ | ⟨c, m, he, -, hcm, hmn⟩ := hs.covered
  · rw [he] at hcur
    cases hcur
  · rw [he] at hcur
    cases hcur
    omega

/-- A message that the gateway takes. -/
def World.sending (w : World) (msg : Msg) : World :=
  (Manager.processMessage .small (fun _ => "") "id" msg).after w

/-- The next record of the queue handled. -/
def World.taking (w : World) : World :=
  match w.queue with
  | [] => w
  | payload :: rest => (Consumer.handleMsg .small payload).after { w with queue := rest }

/-- The handling of the next record is without a refused call. -/
def World.takesClean (w : World) : Bool :=
  match w.queue with
  | [] => true
  | payload :: rest => (Consumer.handleMsg .small payload).clean { w with queue := rest }

theorem Sent.taking {allowed : World → UserId → Prop} {w : World} (h : Sent .small allowed w)
    (hc : w.takesClean = true) : Sent .small allowed w.taking := by
  unfold World.taking
  unfold World.takesClean at hc
  cases hq : w.queue with
  | nil => exact h
  | cons payload rest =>
    rw [hq] at hc
    exact .handle h hq hc

theorem twoUsers_sent (allowed : World → UserId → Prop) : Sent .small allowed twoUsers := by
  have hgateway : Sent .small allowed oneGateway := .others .start (fun _ => rfl) rfl rfl rfl
  exact .createUser "b" (.createUser "a" hgateway rfl rfl rfl) rfl rfl rfl

/-- A message of `a` handled, a loss, and a message of a user who is created after it. -/
def rejoinedState : World :=
  (((Db.createUser .small "c").after (twoUsers.sending hello).taking.reload).sending
    { hello with senderId := "c" }).taking

theorem send_numbers_durable_reloaded :
    rejoinedState.queue = [] ∧ ∀ u ∈ ["a", "c"], rejoinedState.handed (sendSeqKey u) = [1] ∧
      (rejoinedState.redis.hashes (sendSeqKey u)).curSeq = some 1 ∧
      (rejoinedState.handed (sendSeqKey u)).Pairwise (· < ·) ∧
      (rejoinedState.queue = [] → ∀ cur,
        (rejoinedState.redis.hashes (sendSeqKey u)).curSeq = some cur → cur ≤ 1) := by
  have hroom : SendRoom twoUsers "a" := fun _ => by decide
  have hsent : Sent .small SendRoom (twoUsers.sending hello) :=
    .gateway (fun _ => "") "id" hello (twoUsers_sent _) hroom (by decide)
  have hcreated : Sent .small SendRoom
      ((Db.createUser .small "c").after (twoUsers.sending hello).taking.reload) :=
    .createUser "c" (.reload (hsent.taking (by decide))) (by decide) (by decide) rfl
  have hnew : SendRoom ((Db.createUser .small "c").after (twoUsers.sending hello).taking.reload) "c" :=
    fun _ => by decide
  have hrun : Sent .small SendRoom rejoinedState :=
    Sent.taking (.gateway (fun _ => "") "id" { hello with senderId := "c" } hcreated hnew (by decide))
      (by decide)
  refine ⟨by decide, fun u hu => ?_⟩
  have hmax : rejoinedState.pg.sendMax u = some 1 ∧ rejoinedState.handed (sendSeqKey u) = [1] ∧
      (rejoinedState.redis.hashes (sendSeqKey u)).curSeq = some 1 := by
    rw [List.mem_cons, List.mem_singleton] at hu
    obtain rfl | rfl := hu
    · decide
    · decide
  exact ⟨hmax.2.1, hmax.2.2, send_numbers_durable (by decide) _ hrun u 1 hmax.1⟩

/-- Two messages of `a`, both handled, then a loss and a third message. -/
def resentState : World :=
  (twoUsers.sending hello |>.sending hello).taking.taking.reload.sending hello

/-- The second message opens a block that the consumer never records. -/
theorem send_number_reused : ¬ SendDurable .small fun _ _ => True := by
  intro h
  have hsent : Sent .small (fun _ _ => True) (twoUsers.sending hello |>.sending hello) :=
    .gateway _ _ _ (.gateway _ _ _ (twoUsers_sent _) trivial (by decide)) trivial (by decide)
  have hrun : Sent .small (fun _ _ => True) resentState :=
    .gateway _ _ _ (.reload ((hsent.taking (by decide)).taking (by decide))) trivial (by decide)
  have hs := h resentState hrun "a" 1 (by decide)
  have hhanded : resentState.handed (sendSeqKey "a") = [1, 2, 2] := by decide
  rw [hhanded] at hs
  exact absurd hs.1 (by decide)

end Send

end Sandcat
