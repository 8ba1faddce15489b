import Mathlib.Data.List.Forall2
import Mathlib.Logic.Function.Basic
import Sandcat.Polls

/-!
# Votes side by side

A vote reads the whole poll and writes all of its options, and nothing ties the two statements
together. A vote written in between is lost, and one that has been read before the poll is closed is
written after.
-/

namespace Sandcat

namespace Polls

/-- The first statement of `vote_poll`. -/
def selectPoll (req : VotePollRequest) (t : Polls) : Except Error GroupPoll :=
  match t.find req.pollId with
  | none => .error rowNotFound
  | some poll =>
    if poll.status ≠ "active" then .error (.mk .unAuthorized (some "Poll is not active")) else .ok poll

/-- The second one. -/
def updatePoll (pollId : String) (options : List PollOption) (t : Polls) :
    Except Error (GroupPoll × Polls) :=
  match t.find pollId with
  | none => .error rowNotFound
  | some poll => .ok (stored options poll, t.modify (fun p => p.id = pollId) (stored options) fun _ => rfl)

/-- With nothing in between, the two are `vote_poll`. -/
theorem votePoll_eq (req : VotePollRequest) (t : Polls) :
    t.votePoll req = (t.selectPoll req).bind fun poll =>
      t.updatePoll req.pollId (poll.vote req).options := by
  unfold votePoll selectPoll updatePoll
  cases t.find req.pollId with
  | none => rfl
  | some poll =>
    by_cases hactive : poll.status = "active"
    · simp only [hactive, ne_eq, not_true_eq_false, if_false, Except.bind]
      rfl
    · simp only [hactive, ne_eq, not_false_eq_true, if_true, Except.bind]

/-- The permission query of `close_poll`. -/
def canClose (members : Table GroupMemberRow.key) (pollId : String) (u : UserId) (t : Polls) : Bool :=
  match t.find pollId with
  | none => false
  | some poll =>
    match members.find (poll.groupId, u) with
    | none => false
    | some m => m.role = .admin ∨ m.role = .owner ∨ poll.creatorId = u

/-- `SET status = 'closed'`. -/
def closed (poll : GroupPoll) : GroupPoll := { poll with status := "closed" }

/-- The update of `close_poll`. -/
def closePoll (pollId : String) (t : Polls) : Except Error (GroupPoll × Polls) :=
  match t.find pollId with
  | none => .error rowNotFound
  | some poll => .ok (closed poll, t.modify (fun p => p.id = pollId) closed fun _ => rfl)

end Polls

/-- What a process is about to do: nothing, the update of a vote on the poll that it has read, or
that of `close_poll`. -/
inductive PollStage where
  | idle
  | voting (req : VotePollRequest) (poll : GroupPoll)
  | closing (pollId : String)

/-- The statements of the calls; `giveUp` is the failure of a call between two of them. -/
inductive PollOp (ι : Type) where
  | selectPoll (i : ι) (req : VotePollRequest)
  | updatePoll (i : ι)
  | checkClose (i : ι) (members : Table GroupMemberRow.key) (pollId : String) (u : UserId)
  | closePoll (i : ι)
  | giveUp (i : ι)

/-- The polls, the processes, and the votes that were answered. -/
structure PollRun (ι : Type) where
  polls : Polls
  stages : ι → PollStage
  votes : List VotePollRequest

namespace PollRun

variable {ι : Type} [DecidableEq ι]

def start (polls : Polls) : PollRun ι := ⟨polls, fun _ => .idle, []⟩

def enter (i : ι) (stage : PollStage) (s : PollRun ι) : PollRun ι :=
  { s with stages := Function.update s.stages i stage }

/-- The effect of a statement. -/
def step (s : PollRun ι) : PollOp ι → PollRun ι
  | .selectPoll i req =>
    match s.stages i, s.polls.selectPoll req with
    | .idle, .ok poll => s.enter i (.voting req poll)
    | _, _ => s
  | .updatePoll i =>
    match s.stages i with
    | .voting req poll =>
      match s.polls.updatePoll req.pollId (poll.vote req).options with
      | .error _ => s.enter i .idle
      | .ok (_, polls) => { s.enter i .idle with polls, votes := s.votes ++ [req] }
    | _ => s
  | .checkClose i members pollId u =>
    match s.stages i with
    | .idle => if s.polls.canClose members pollId u then s.enter i (.closing pollId) else s
    | _ => s
  | .closePoll i =>
    match s.stages i with
    | .closing pollId =>
      match s.polls.closePoll pollId with
      | .error _ => s.enter i .idle
      | .ok (_, polls) => { s.enter i .idle with polls }
    | _ => s
  | .giveUp i => s.enter i .idle

/-- The votes on a poll. -/
def votesOn (id : String) (s : PollRun ι) : List VotePollRequest := s.votes.filter fun req => req.pollId = id

/-- What a statement does to a poll and to the votes on it. -/
inductive Effect (id : String) (s : PollRun ι) (poll : GroupPoll) (op : PollOp ι) (s' : PollRun ι) :
    Prop where
  | kept (hpoll : s'.polls.find id = some poll) (hvotes : s'.votesOn id = s.votesOn id)
  | voted {i : ι} {req : VotePollRequest} {read : GroupPoll} (hop : op = .updatePoll i)
      (hstage : s.stages i = .voting req read) (hid : req.pollId = id)
      (hpoll : s'.polls.find id = some (Polls.stored (read.vote req).options poll))
      (hvotes : s'.votesOn id = s.votesOn id ++ [req])
  | closed (hpoll : s'.polls.find id = some (Polls.closed poll)) (hvotes : s'.votesOn id = s.votesOn id)

variable {id : String} {s s' : PollRun ι} {poll : GroupPoll}

theorem effect_step (h : s.polls.find id = some poll) (op : PollOp ι) :
    Effect id s poll op (s.step op) := by
  have hmodify : ∀ (pollId : String) (f : GroupPoll → GroupPoll) (hf : ∀ p, (f p).id = p.id),
      (s.polls.modify (fun p => p.id = pollId) f hf).find id =
        some (if pollId = id then f poll else poll) := by
    intro pollId f hf
    obtain ⟨-, rfl⟩ := (s.polls.find_eq_some _ _).mp h
    rw [Table.find_modify, h, Option.map_some]
    by_cases he : pollId = poll.id
    · simp [he]
    · simp [he, Ne.symm he]
  cases op with
  | selectPoll i req =>
    simp only [step]
    split
    · exact .kept h rfl
    · exact .kept h rfl
  | updatePoll i =>
    simp only [step]
    split
    · rename_i req read hstage
      unfold Polls.updatePoll
      cases hfind : s.polls.find req.pollId with
      | none => exact .kept h rfl
      | some p =>
        by_cases hid : req.pollId = id
        · refine .voted rfl hstage hid ?_ ?_
          · exact (hmodify _ (Polls.stored _) fun _ => rfl).trans (by rw [if_pos hid])
          · simp [votesOn, List.filter_append, hid]
        · refine .kept ?_ ?_
          · exact (hmodify _ (Polls.stored _) fun _ => rfl).trans (by rw [if_neg hid])
          · simp [votesOn, List.filter_append, hid]
    · exact .kept h rfl
  | checkClose i members pollId u =>
    simp only [step]
    split
    · split
      · exact .kept h rfl
      · exact .kept h rfl
    · exact .kept h rfl
  | closePoll i =>
    simp only [step]
    split
    · rename_i pollId hstage
      unfold Polls.closePoll
      cases hfind : s.polls.find pollId with
      | none => exact .kept h rfl
      | some p =>
        by_cases hid : pollId = id
        · exact .closed ((hmodify _ Polls.closed fun _ => rfl).trans (by rw [if_pos hid])) rfl
        · exact .kept ((hmodify _ Polls.closed fun _ => rfl).trans (by rw [if_neg hid])) rfl
    · exact .kept h rfl
  | giveUp i => exact .kept h rfl

end PollRun

/-- The options that a vote has read are the ones stored. The poll is active, or the vote names no
option of it, and the counts have room. -/
structure GroupPoll.Current (req : VotePollRequest) (read poll : GroupPoll) : Prop where
  same : read.options = poll.options
  active : poll.status = "active" ∨ ∀ o ∈ poll.options, o.id ∉ req.optionIds
  room : ∀ o ∈ poll.options, o.id ∈ req.optionIds → o.voteCount.toInt + 1 < 2 ^ 31

/-- The count of an option is the one at first and the number of votes for it. -/
structure PollOption.Counted (votes : List VotePollRequest) (o o' : PollOption) : Prop where
  id : o'.id = o.id
  count : o'.voteCount.toInt = o.voteCount.toInt + (votes.countP fun req => o.id ∈ req.optionIds : Nat)

/-- The same for all options of a poll, given those at first. -/
def GroupPoll.Counted (options : List PollOption) (votes : List VotePollRequest) (poll : GroupPoll) :
    Prop :=
  List.Forall₂ (PollOption.Counted votes) options poll.options

namespace GroupPoll

variable {req : VotePollRequest} {read poll : GroupPoll}

theorem counted_nil (poll : GroupPoll) : poll.Counted poll.options [] :=
  List.forall₂_same.mpr fun _ _ => ⟨rfl, by simp⟩

theorem counted_option_vote {votes : List VotePollRequest} {o o' : PollOption}
    (h : PollOption.Counted votes o o') (isAnonymous : Bool)
    (hroom : o'.id ∈ req.optionIds → o'.voteCount.toInt + 1 < 2 ^ 31) :
    PollOption.Counted (votes ++ [req]) o (o'.vote req isAnonymous) := by
  unfold PollOption.vote
  split
  · rename_i ho
    refine ⟨h.id, ?_⟩
    have hlt := hroom ho
    change (o'.voteCount + 1).toInt = _
    rw [h.id] at ho
    rw [toInt_succ, if_neg (by omega), h.count, List.countP_append, List.countP_singleton,
      if_pos (decide_eq_true ho)]
    omega
  · rename_i ho
    rw [h.id] at ho
    refine ⟨h.id, ?_⟩
    rw [h.count, List.countP_append, List.countP_singleton, if_neg (by simpa using ho), Nat.add_zero]

/-- A vote on the options stored is counted. -/
theorem counted_vote {options : List PollOption} {votes : List VotePollRequest}
    (h : poll.Counted options votes) (hcurrent : Current req read poll) :
    (Polls.stored (read.vote req).options poll).Counted options (votes ++ [req]) := by
  have hoptions : (Polls.stored (read.vote req).options poll).options =
      poll.options.map (PollOption.vote req read.isAnonymous) := by
    rw [← hcurrent.same]
    rfl
  have hmap : ∀ os os' : List PollOption, List.Forall₂ (PollOption.Counted votes) os os' →
      (∀ o ∈ os', o.id ∈ req.optionIds → o.voteCount.toInt + 1 < 2 ^ 31) →
      List.Forall₂ (PollOption.Counted (votes ++ [req])) os
        (os'.map (PollOption.vote req read.isAnonymous)) := by
    intro os os' hos'
    induction hos' with
    | nil => exact fun _ => .nil
    | cons ho _ ih =>
      intro hroom
      rw [List.forall_mem_cons] at hroom
      exact .cons (counted_option_vote ho _ hroom.1) (ih hroom.2)
  unfold Counted
  rw [hoptions]
  exact hmap options poll.options h hcurrent.room

/-- A vote that names no option writes back what it has read. -/
theorem vote_unnamed (hcurrent : Current req read poll) (hclosed : poll.status ≠ "active") :
    (read.vote req).options = poll.options := by
  have hnone := hcurrent.active.resolve_left hclosed
  rw [vote, hcurrent.same]
  refine (List.map_congr_left fun o ho => ?_).trans (List.map_id _)
  exact if_neg (hnone o ho)

end GroupPoll

namespace PollRun

variable {ι : Type} [DecidableEq ι] {id : String} {s s' : PollRun ι} {poll : GroupPoll}

/-- A vote on the poll is written on the options that it has read, before the poll is closed. -/
def Undisturbed (id : String) (s : PollRun ι) (op : PollOp ι) : Prop :=
  ∀ i req read poll, op = .updatePoll i → s.stages i = .voting req read → req.pollId = id →
    s.polls.find id = some poll → GroupPoll.Current req read poll

/-- The runs in which this is so. -/
inductive UndisturbedRun (id : String) (s : PollRun ι) : PollRun ι → Prop where
  | refl : UndisturbedRun id s s
  | step {t : PollRun ι} (op : PollOp ι) (h : UndisturbedRun id s t) (hop : t.Undisturbed id op) :
      UndisturbedRun id s (t.step op)

/-- The options and the status of a closed poll. -/
theorem closed_kept (hfind : s.polls.find id = some poll) (hclosed : poll.status = "closed")
    (h : UndisturbedRun id s s') :
    ∃ p, s'.polls.find id = some p ∧ p.status = "closed" ∧ p.options = poll.options := by
  induction h with
  | refl => exact ⟨poll, hfind, hclosed, rfl⟩
  | step op h hop ih =>
    obtain ⟨p, hp, hstatus, hoptions⟩ := ih
    cases effect_step hp op with
    | kept hpoll hvotes => exact ⟨p, hpoll, hstatus, hoptions⟩
    | voted hvote hstage hid hpoll hvotes =>
      refine ⟨_, hpoll, hstatus, ?_⟩
      have hcurrent := hop _ _ _ _ hvote hstage hid hp
      exact (GroupPoll.vote_unnamed hcurrent (by rw [hstatus]; decide)).trans hoptions
    | closed hpoll hvotes => exact ⟨_, hpoll, rfl, hoptions⟩

end PollRun

/-- In those runs every vote that was answered is counted, and a poll that is closed stays as it
is. -/
theorem votes_counted {ι : Type} [DecidableEq ι] (polls : Polls) (id : String) (poll : GroupPoll)
    (hpoll : polls.find id = some poll) (s : PollRun ι)
    (h : PollRun.UndisturbedRun id (PollRun.start polls) s) :
    ∃ p, s.polls.find id = some p ∧ p.Counted poll.options (s.votesOn id) ∧
      (p.status = "closed" → ∀ s', PollRun.UndisturbedRun id s s' →
        ∃ p', s'.polls.find id = some p' ∧ p'.status = "closed" ∧ p'.options = p.options) := by
  have hcounted : ∃ p, s.polls.find id = some p ∧ p.Counted poll.options (s.votesOn id) := by
    induction h with
    | refl => exact ⟨poll, hpoll, poll.counted_nil⟩
    | step op h hop ih =>
      obtain ⟨p, hp, hcounted⟩ := ih
      cases PollRun.effect_step hp op with
      | kept hpoll hvotes =>
        rw [hvotes]
        exact ⟨p, hpoll, hcounted⟩
      | voted hvote hstage hid hpoll hvotes =>
        rw [hvotes]
        exact ⟨_, hpoll, GroupPoll.counted_vote hcounted (hop _ _ _ _ hvote hstage hid hp)⟩
      | closed hpoll hvotes =>
        rw [hvotes]
        exact ⟨_, hpoll, hcounted⟩
  obtain ⟨p, hp, hcounted⟩ := hcounted
  exact ⟨p, hp, hcounted, fun hclosed s' h' => PollRun.closed_kept hp hclosed h'⟩

/-- The state after some statements. -/
def PollRun.run {ι : Type} [DecidableEq ι] (ops : List (PollOp ι)) (s : PollRun ι) : PollRun ι :=
  ops.foldl PollRun.step s

/-- A vote for tea by each of two users, in one process each. -/
def twoVotes : List (PollOp Bool) :=
  [.selectPoll false ⟨"p", "u", ["t"]⟩, .updatePoll false, .selectPoll true ⟨"p", "v", ["t"]⟩,
    .updatePoll true]

/-- The same with both reads first. -/
def crossedVotes : List (PollOp Bool) :=
  [.selectPoll false ⟨"p", "u", ["t"]⟩, .selectPoll true ⟨"p", "v", ["t"]⟩, .updatePoll false,
    .updatePoll true]

def ownerOnly : Table GroupMemberRow.key := ⟨[⟨"g", "a", .owner, false⟩], by decide⟩

/-- A vote that is read, and the poll closed. -/
def closedVote : List (PollOp Bool) :=
  [.selectPoll false ⟨"p", "u", ["t"]⟩, .checkClose true ownerOnly "p" "a", .closePoll true]

theorem votes_counted_two : ∃ p, (PollRun.run twoVotes (.start openPolls)).polls.find "p" = some p ∧
    p.Counted openPoll.options ((PollRun.run twoVotes (.start openPolls)).votesOn "p") := by
  have hrun : PollRun.UndisturbedRun "p" (.start openPolls)
      (PollRun.run twoVotes (.start openPolls)) := by
    refine .step (.updatePoll true) (.step (.selectPoll true ⟨"p", "v", ["t"]⟩)
      (.step (.updatePoll false) (.step (.selectPoll false ⟨"p", "u", ["t"]⟩)
        (.refl (s := .start openPolls)) ?_) ?_) ?_) ?_
    · intro i req read poll hop
      cases hop
    · intro i req read poll hop hstage _ hfind
      cases hop
      cases hstage
      cases hfind
      exact ⟨rfl, .inl rfl, by decide⟩
    · intro i req read poll hop
      cases hop
    · intro i req read poll hop hstage _ hfind
      cases hop
      cases hstage
      cases hfind
      exact ⟨rfl, .inl rfl, by decide⟩
  obtain ⟨p, hp, hcounted, -⟩ := votes_counted openPolls "p" openPoll rfl _ hrun
  exact ⟨p, hp, hcounted⟩

/-- Tea has one vote where two were answered, and another in a poll that is closed. -/
theorem votes_lost :
    (¬ ∃ p, (PollRun.run crossedVotes (.start openPolls)).polls.find "p" = some p ∧
      p.Counted openPoll.options ((PollRun.run crossedVotes (.start openPolls)).votesOn "p")) ∧
    ∃ p p', (PollRun.run closedVote (.start openPolls)).polls.find "p" = some p ∧
      p.status = "closed" ∧
      (PollRun.run (closedVote ++ [.updatePoll false]) (.start openPolls)).polls.find "p" = some p' ∧
      p'.options ≠ p.options := by
  constructor
  · rintro ⟨p, hp, hcounted⟩
    cases hp
    cases hcounted with
    | cons htea _ => exact absurd htea.count (by decide)
  · exact ⟨_, _, rfl, rfl, rfl, by decide⟩

end Sandcat
