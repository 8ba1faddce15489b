import Sandcat.Outsider

/-!
# A member that has been removed

Handlers of the API and one consumer run side by side, call by call in any order, and
Redis may drop a cached set at any time. The row of a removed member is deleted before
its notification is published, and the consumer takes the member out of the cached set
when it handles the notification. From then on nothing of a message to the group goes
to the former member, unless a handler that added the member's row before the deletion
adds the member to the cached set only now.
-/

namespace Sandcat

open Remote

/-- The processes, the record that the consumer handles or has handled last, and two marks for
one user and one group: whether the user has had no row since that record was taken, and
whether the user had been removed when it was taken and has had no row since. -/
structure Watch (ι : Type) where
  world : World
  api : ι → M Unit
  consumer : M Unit
  record : Payload
  clear : Bool
  gone : Bool

namespace Watch

variable {ι : Type} (cfg : Config) (g : GroupId) (v : UserId)

def start (w : World) : Watch ι := ⟨w, fun _ => .ret (), .ret (), .malformed, false, false⟩

/-- Something has happened; a row ends the marks. -/
def observe (W : Watch ι) (t : World) : Watch ι :=
  { W with
    world := t
    clear := W.clear && v ∉ t.pg.membersOf g
    gone := W.gone && v ∉ t.pg.membersOf g }

/-- The record at hand removes the user, who has had no row since it was taken. -/
def removing (W : Watch ι) : Bool := W.clear && (g, v) ∈ removals W.record

/-- The next record. A removal that has been carried out counts from here on. -/
def take (W : Watch ι) (payload : Payload) (rest : List Payload) : Watch ι :=
  { W with
    world := { W.world with queue := rest }
    consumer := Consumer.handleMsg cfg payload
    record := payload
    clear := v ∉ W.world.pg.membersOf g
    gone := W.gone || (W.consumer.succeeded && W.removing g v) }

def callConsumer (W : Watch ι) : Watch ι :=
  match Prog.step W.consumer W.world with
  | some (m, t) => { W.observe g v t with consumer := m }
  | none => W

variable [DecidableEq ι]

def serve (W : Watch ι) (i : ι) (q : GroupRequest) : Watch ι :=
  { W with api := Function.update W.api i (q.handler cfg) }

def callApi (W : Watch ι) (i : ι) : Watch ι :=
  match Prog.step (W.api i) W.world with
  | some (m, t) => { W.observe g v t with api := Function.update W.api i m }
  | none => W

end Watch

/-- The user has been taken out of the cached set. -/
def Watch.TakenOut {ι : Type} (g : GroupId) (v : UserId) (W : Watch ι) : Prop :=
  W.gone = true ∨ W.removing g v = true ∧ ¬ StillRemoves g v W.consumer

/-- A call that puts the user into the cached set again. -/
def Late {ι : Type} (g : GroupId) (v : UserId) (W : Watch ι) (t : World) : Prop :=
  W.TakenOut g v ∧ v ∉ W.world.redis.members g ∧ v ∈ t.redis.members g

/-- The runs. `others` stands for everything that leaves the rows and the cached sets alone, such
as the messages that users send. -/
inductive Watched (cfg : Config) (g : GroupId) (v : UserId) {ι : Type} [DecidableEq ι]
    (allowed : Watch ι → World → Prop) : Watch ι → Prop where
  | start (w : World) : Watched cfg g v allowed (.start w)
  | serve {W : Watch ι} (i : ι) (q : GroupRequest) : Watched cfg g v allowed W →
      (W.api i).finished = true → Watched cfg g v allowed (W.serve cfg i q)
  | api {W : Watch ι} (i : ι) : Watched cfg g v allowed W →
      (∀ m t, Prog.step (W.api i) W.world = some (m, t) → allowed W t) →
      Watched cfg g v allowed (W.callApi g v i)
  | take {W : Watch ι} {payload : Payload} {rest : List Payload} : Watched cfg g v allowed W →
      W.consumer.finished = true → W.world.queue = payload :: rest →
      Watched cfg g v allowed (W.take cfg g v payload rest)
  | consume {W : Watch ι} : Watched cfg g v allowed W → Watched cfg g v allowed (W.callConsumer g v)
  | drop {W : Watch ι} (h : GroupId) : Watched cfg g v allowed W →
      Watched cfg g v allowed
        { W with world := { W.world with redis := W.world.redis.setMembers h ∅ } }
  | others {W : Watch ι} (t : World) : Watched cfg g v allowed W →
      (∀ h, t.pg.membersOf h = W.world.pg.membersOf h) → t.redis.sets = W.world.redis.sets →
      Watched cfg g v allowed { W with world := t }

/-- While the user is gone, no call for a message to the group gives the user anything. -/
def RemovalEffective (cfg : Config) (g : GroupId) (v : UserId)
    (allowed : ∀ {ι : Type}, Watch ι → World → Prop) : Prop :=
  ∀ (ι : Type) [DecidableEq ι] (W : Watch ι), Watched cfg g v allowed W → W.gone = true →
    ∀ msg, W.record = .json msg → ToGroup g v msg → W.world.HubsReachable →
      Spared v W.world (W.callConsumer g v).world

section Watched

variable {cfg : Config} {g : GroupId} {v : UserId} {ι : Type} {W : Watch ι}

/-- What holds between the marks, the state and the rest of the consumer's program. -/
structure Watch.Right (g : GroupId) (v : UserId) (W : Watch ι) : Prop where
  clear : W.clear = true → v ∉ W.world.pg.membersOf g
  gone : W.gone = true → Out g v W.world ∧ KeepsOutside g v W.consumer
  spares : W.gone = true → ∀ msg, W.record = .json msg → ToGroup g v msg →
    Prog.Guarantees (Out g v) (Spares v) W.consumer fun _ => True
  removing : W.removing g v = true → StillRemoves g v W.consumer ∨
    v ∉ W.world.redis.members g ∧ KeepsOutside g v W.consumer

theorem Watch.clear_of_removing (h : W.removing g v = true) : W.clear = true := by
  rw [Watch.removing, Bool.and_eq_true] at h
  exact h.1

theorem Watch.clear_of_observe {t : World} (h : (W.observe g v t).clear = true) :
    v ∉ t.pg.membersOf g := by
  simp only [Watch.observe, Bool.and_eq_true, decide_eq_true_eq] at h
  exact h.2

theorem Watch.removing_of_observe {t : World} (h : (W.observe g v t).removing g v = true) :
    W.removing g v = true ∧ v ∉ t.pg.membersOf g := by
  simp only [Watch.removing, Watch.observe, Bool.and_eq_true] at h ⊢
  exact ⟨⟨h.1.1, h.2⟩, of_decide_eq_true h.1.2⟩

theorem Watch.gone_of_observe {t : World} (h : (W.observe g v t).gone = true) :
    W.gone = true ∧ v ∉ t.pg.membersOf g := by
  simpa [Watch.observe] using h

/-- A user who has been taken out is not put in again. -/
theorem Watch.Right.observe (h : W.Right g v) {t : World}
    (hcached : W.TakenOut g v → KeepsOut g v W.world t) : (W.observe g v t).Right g v := by
  refine ⟨?_, ?_, ?_, ?_⟩
  · exact fun hclear => Watch.clear_of_observe hclear
  · intro hgone
    obtain ⟨hgone, hrow⟩ := Watch.gone_of_observe hgone
    obtain ⟨hout, hkeeps⟩ := h.gone hgone
    exact ⟨⟨hrow, hcached (.inl hgone) hout.cached⟩, hkeeps⟩
  · intro hgone
    exact h.spares (Watch.gone_of_observe hgone).1
  · intro hremoving
    obtain ⟨hremoving, -⟩ := Watch.removing_of_observe hremoving
    by_cases hstill : StillRemoves g v W.consumer
    · exact .inl hstill
    · obtain ⟨hout, hkeeps⟩ := (h.removing hremoving).resolve_left hstill
      exact .inr ⟨hcached (.inr ⟨hremoving, hstill⟩) hout, hkeeps⟩

/-- A change that no row comes with. -/
theorem Watch.Right.world (h : W.Right g v) {t : World}
    (hrows : t.pg.membersOf g = W.world.pg.membersOf g) (hcached : KeepsOut g v W.world t) :
    Watch.Right g v { W with world := t } := by
  refine ⟨fun hclear => hrows ▸ h.clear hclear, ?_, h.spares, ?_⟩
  · intro hgone
    obtain ⟨hout, hkeeps⟩ := h.gone hgone
    exact ⟨⟨hrows ▸ hout.row, hcached hout.cached⟩, hkeeps⟩
  · intro hremoving
    exact (h.removing hremoving).imp_right fun hout => ⟨hcached hout.1, hout.2⟩

theorem Watch.Right.take (h : W.Right g v) (hne : v ≠ g) (payload : Payload) (rest : List Payload) :
    (W.take cfg g v payload rest).Right g v := by
  refine ⟨?_, ?_, ?_, ?_⟩
  · intro hclear
    simpa [Watch.take] using hclear
  · intro hgone
    refine ⟨?_, Consumer.keepsOutside_handleMsg cfg payload⟩
    simp only [Watch.take, Bool.or_eq_true, Bool.and_eq_true] at hgone
    obtain hgone | ⟨hsucceeded, hremoving⟩ := hgone
    · exact ⟨(h.gone hgone).1.row, (h.gone hgone).1.cached⟩
    · have hclear := Watch.clear_of_removing hremoving
      obtain hstill | ⟨hout, -⟩ := h.removing hremoving
      · rw [Prog.not_succeeded_of_reaches hstill] at hsucceeded
        cases hsucceeded
      · exact ⟨h.clear hclear, hout⟩
  · intro _ msg hrecord hto
    obtain rfl : payload = .json msg := hrecord
    exact Consumer.spares_handleMsg cfg hne hto
  · intro hremoving
    simp only [Watch.removing, Watch.take, Bool.and_eq_true] at hremoving
    exact .inl (Consumer.stillRemoves_handleMsg cfg (of_decide_eq_true hremoving.2))

theorem Watch.Right.callConsumer (h : W.Right g v) : (W.callConsumer g v).Right g v := by
  unfold Watch.callConsumer
  cases hstep : Prog.step W.consumer W.world with
  | none => exact h
  | some p =>
    obtain ⟨m, t⟩ := p
    have hkeeps : Out g v W.world → KeepsOutside g v W.consumer →
        v ∉ t.redis.members g ∧ KeepsOutside g v m := by
      intro hout hkeeps
      obtain ⟨hguarantee, hm⟩ := Prog.guarantees_step keepsOut_refl hstep hkeeps hout
      exact ⟨hguarantee hout.cached, hm⟩
    refine ⟨?_, ?_, ?_, ?_⟩
    · exact fun hclear => Watch.clear_of_observe (W := W) hclear
    · intro hgone
      obtain ⟨hgone, hrow⟩ := Watch.gone_of_observe hgone
      obtain ⟨hcached, hm⟩ := hkeeps (h.gone hgone).1 (h.gone hgone).2
      exact ⟨⟨hrow, hcached⟩, hm⟩
    · intro hgone msg hrecord hto
      obtain ⟨hgone, -⟩ := Watch.gone_of_observe hgone
      exact (Prog.guarantees_step spares_refl hstep (h.spares hgone msg hrecord hto)
        (h.gone hgone).1).2
    · intro hremoving
      obtain ⟨hremoving, -⟩ := Watch.removing_of_observe (W := W) (t := t) hremoving
      have hclear := Watch.clear_of_removing hremoving
      obtain hstill | ⟨hout, hk⟩ := h.removing hremoving
      · exact Prog.reaches_step hstep hstill
      · exact .inr (hkeeps ⟨h.clear hclear, hout⟩ hk)

variable [DecidableEq ι]

/-- Every run without a late call keeps the marks right. -/
theorem Watched.right (hne : v ≠ g) (h : Watched cfg g v (fun W t => ¬ Late g v W t) W) :
    W.Right g v := by
  induction h with
  | start w =>
    refine ⟨?_, ?_, ?_, ?_⟩ <;> intro hmark <;> cases hmark
  | serve i q _ _ ih => exact ⟨ih.clear, ih.gone, ih.spares, ih.removing⟩
  | @api W i _ hallowed ih =>
    unfold Watch.callApi
    cases hstep : Prog.step (W.api i) W.world with
    | none => exact ih
    | some p =>
      have hlate := hallowed p.1 p.2 hstep
      have hobserve := ih.observe (t := p.2) fun hmark hout hin => hlate ⟨hmark, hout, hin⟩
      exact ⟨hobserve.clear, hobserve.gone, hobserve.spares, hobserve.removing⟩
  | take _ _ _ ih => exact ih.take hne _ _
  | consume _ ih => exact ih.callConsumer
  | drop j _ ih =>
    refine ih.world rfl ?_
    intro hout
    rw [Redis.members_setMembers]
    split
    · exact MemberSet.not_mem_empty v
    · exact hout
  | others t _ hrows hsets ih => exact ih.world (hrows g) (keepsOut_of_sets hsets)

end Watched

/-- Removals are effective in every run without a late call. -/
theorem removal_effective (cfg : Config) (g : GroupId) (v : UserId) (hne : v ≠ g) :
    RemovalEffective cfg g v fun W t => ¬ Late g v W t := by
  intro ι _ W hrun hgone msg hrecord hto hhubs
  have hright := hrun.right hne
  unfold Watch.callConsumer
  cases hstep : Prog.step W.consumer W.world with
  | none => exact spares_refl W.world hhubs
  | some p =>
    exact (Prog.guarantees_step spares_refl hstep (hright.spares hgone msg hrecord hto)
      (hright.gone hgone).1).1 hhubs

section Runs

variable {cfg : Config} {g : GroupId} {v : UserId} {ι : Type} [DecidableEq ι]
  {allowed : Watch ι → World → Prop} {W : Watch ι}

/-- Handlers may run on while neither mark is set. -/
theorem Watched.apis (h : Watched cfg g v allowed W)
    (hallowed : ∀ W t, W.gone = false → W.clear = false → allowed W t) (hgone : W.gone = false)
    (hclear : W.clear = false) (i : ι) (n : Nat) :
    Watched cfg g v allowed ((Watch.callApi g v · i)^[n] W) := by
  induction n generalizing W with
  | zero => exact h
  | succ n ih =>
    have hnext := h.api i fun m t _ => hallowed W t hgone hclear
    rw [Function.iterate_succ_apply]
    refine ih hnext ?_ ?_
    · unfold Watch.callApi
      split
      · simp [Watch.observe, hgone]
      · exact hgone
    · unfold Watch.callApi
      split
      · simp [Watch.observe, hclear]
      · exact hclear

theorem Watched.consumes (h : Watched cfg g v allowed W) (n : Nat) :
    Watched cfg g v allowed ((Watch.callConsumer g v)^[n] W) := by
  induction n generalizing W with
  | zero => exact h
  | succ n ih => exact ih h.consume

end Runs

/-- A group of `a` and `b` with a gateway. -/
def groupOnline : World := { groupOfTwo with gateways := fun _ => some Hub.empty, wsRpcList := [0] }

theorem groupOnline_hubs : groupOnline.HubsReachable := by
  intro addr hub h
  cases h
  exact .empty

/-- The exit of `c`, and the record that it publishes. -/
def exitThird : GroupRequest := .delete "id" "c" "g" false

def exitRecord : Payload :=
  .json
    { senderId := "c", receiverId := "g", groupId := "g", serverId := "id", sendSeq := 1,
      msgType := MsgType.groupMemberExit.toI32 }

namespace Watch

/-- The exit is served and its record handled. -/
def exited (W : Watch Bool) : Watch Bool :=
  (callConsumer "g" "c")^[14]
    (((callApi "g" "c" · true)^[6] (W.serve .small true exitThird)).take .small "g" "c" exitRecord [])

/-- A message of `a` to the group is taken, and the members have been read. -/
def greeted (W : Watch Bool) : Watch Bool :=
  (callConsumer "g" "c")^[2]
    ({ W with world := { W.world with queue := [.json groupHello] } }.take .small "g" "c"
      (.json groupHello) [])

end Watch

theorem watched_exited {allowed : Watch Bool → World → Prop} {W : Watch Bool}
    (h : Watched .small "g" "c" allowed W)
    (hallowed : ∀ W t, W.gone = false → W.clear = false → allowed W t) (hgone : W.gone = false)
    (hclear : W.clear = false) (hfin : (W.api true).finished = true)
    (hconsumer : ((Watch.callApi "g" "c" · true)^[6]
      (W.serve .small true exitThird)).consumer.finished = true)
    (hqueue : ((Watch.callApi "g" "c" · true)^[6]
      (W.serve .small true exitThird)).world.queue = [exitRecord]) :
    Watched .small "g" "c" allowed W.exited :=
  (((h.serve true exitThird hfin).apis hallowed hgone hclear true 6).take hconsumer hqueue).consumes 14

theorem watched_greeted {allowed : Watch Bool → World → Prop} {W : Watch Bool}
    (h : Watched .small "g" "c" allowed W) (hconsumer : W.consumer.finished = true) :
    Watched .small "g" "c" allowed W.greeted :=
  ((h.others { W.world with queue := [.json groupHello] } (fun _ => rfl) rfl).take hconsumer
    rfl).consumes 2

/-- The group with `c`, in the middle of a run. -/
def thirdJoined : Watch Bool :=
  .start { groupOnline with pg := groupOnline.pg.insertMembers "g" ["c"] }

/-- When `b` is given the number of the message, `c` is given nothing. -/
theorem removal_effective_exited : "c" ≠ "g" ∧
    thirdJoined.exited.greeted.world.handed (seqKey "b") ≠
      (thirdJoined.exited.greeted.callConsumer "g" "c").world.handed (seqKey "b") ∧
    Spared "c" thirdJoined.exited.greeted.world
      (thirdJoined.exited.greeted.callConsumer "g" "c").world := by
  refine ⟨by decide, by decide, ?_⟩
  have hjoined : Watched .small "g" "c" (fun W t => ¬ Late "g" "c" W t) thirdJoined := .start _
  have hexited := watched_exited hjoined
    (fun W t hgone hclear hlate => by
      simp [Watch.removing, hgone, hclear, Late, Watch.TakenOut] at hlate)
    rfl rfl rfl rfl rfl
  have hgreeted := watched_greeted hexited (by decide)
  refine removal_effective .small "g" "c" (by decide) Bool _ hgreeted (by decide) groupHello (by rfl)
    ?_ ?_
  · exact ⟨rfl, by decide, .groupMsg, rfl, rfl⟩
  · exact groupOnline_hubs

/-- The invitation of `c` has added the row but not yet the member of the cached set. -/
def inviteStarted : Watch Bool :=
  (Watch.callApi "g" "c" · false)^[2] ((Watch.start groupOnline).serve .small false inviteThird)

/-- The invitation goes on after the exit, and `c` is given the number of the next message. -/
theorem removal_undone_by_invitation : ¬ RemovalEffective .small "g" "c" fun _ _ => True := by
  intro h
  have hstarted : Watched .small "g" "c" (fun _ _ => True) inviteStarted :=
    ((Watched.start groupOnline).serve false inviteThird rfl).apis (fun _ _ _ _ => trivial) rfl rfl
      false 2
  have hexited := watched_exited hstarted (fun _ _ _ _ => trivial) rfl rfl rfl rfl rfl
  have hlate := hexited.api false fun _ _ _ => trivial
  have hgreeted := watched_greeted hlate (by decide)
  have hspared := (h Bool _ hgreeted (by decide) groupHello (by rfl)
    ⟨rfl, by decide, .groupMsg, rfl, rfl⟩ groupOnline_hubs).numbers
  revert hspared
  decide

end Sandcat
