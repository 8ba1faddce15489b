import Mathlib.Algebra.Group.Int.Defs
import Mathlib.Data.List.Pairwise
import Sandcat.Postgres

/-!
# Polls of a group

A poll keeps its options in one column, each with its voters and its count, and a vote writes
the whole list back. The column is taken to store the list faithfully. The count is a machine
integer of 32 bits and wraps. A vote adds one to the count of every option that it lists,
whether the user is new among its voters or not, and it asks for nothing in a poll with a
single choice.
-/

namespace Sandcat

structure PollOption where
  id : String
  text : String
  voterIds : List UserId
  voteCount : Int32
  deriving DecidableEq

structure GroupPoll where
  id : String
  groupId : GroupId
  creatorId : UserId
  title : String
  options : List PollOption
  isMultiple : Bool
  isAnonymous : Bool
  createdAt : Int
  expiresAt : Int
  status : String
  deriving DecidableEq

structure CreatePollRequest where
  groupId : GroupId
  creatorId : UserId
  title : String
  options : List String
  isMultiple : Bool
  isAnonymous : Bool
  expiresAt : Int

structure VotePollRequest where
  pollId : String
  userId : UserId
  optionIds : List String

abbrev Polls := Table GroupPoll.id

namespace Polls

/-- `create_poll`; `nanoid` gives the identifiers in the order in which they are drawn. -/
def createPoll (groups : Table GroupRow.id) (nanoid : Nat → String) (now : Int)
    (req : CreatePollRequest) (t : Polls) : Except Error (GroupPoll × Polls) :=
  let options := req.options.zipIdx.map fun p => ⟨nanoid (p.2 + 1), p.1, [], 0⟩
  let poll := ⟨nanoid 0, req.groupId, req.creatorId, req.title, options, req.isMultiple,
    req.isAnonymous, now, req.expiresAt, "active"⟩
  match groups.find req.groupId, t.insert poll with
  | some _, some t' => .ok (poll, t')
  | none, _ => .error (.mk .dbError (some "insert violates foreign key constraint"))
  | _, none => .error uniqueViolation

end Polls

/-- The vote for one option. -/
def PollOption.vote (req : VotePollRequest) (isAnonymous : Bool) (option : PollOption) : PollOption :=
  if option.id ∈ req.optionIds then
    let voterIds :=
      if !isAnonymous then
        if !option.voterIds.contains req.userId then option.voterIds ++ [req.userId]
        else option.voterIds
      else option.voterIds
    { option with voterIds, voteCount := option.voteCount + 1 }
  else option

/-- The options as the vote leaves them. -/
def GroupPoll.vote (req : VotePollRequest) (poll : GroupPoll) : GroupPoll :=
  { poll with options := poll.options.map (PollOption.vote req poll.isAnonymous) }

namespace Polls

/-- `SET options = $1`. -/
def stored (options : List PollOption) (poll : GroupPoll) : GroupPoll := { poll with options }

/-- `vote_poll`. -/
def votePoll (req : VotePollRequest) (t : Polls) : Except Error (GroupPoll × Polls) :=
  match t.find req.pollId with
  | none => .error rowNotFound
  | some poll =>
    if poll.status ≠ "active" then .error (.mk .unAuthorized (some "Poll is not active"))
    else
      let poll := poll.vote req
      .ok (poll, t.modify (fun p => p.id = req.pollId) (stored poll.options) fun _ => rfl)

/-- The polls after one vote, and after one after another. -/
def afterVote (req : VotePollRequest) (t : Polls) : Polls :=
  ((t.votePoll req).toOption.map Prod.snd).getD t

def afterVotes (reqs : List VotePollRequest) (t : Polls) : Polls :=
  reqs.foldl (fun t req => t.afterVote req) t

end Polls

/-- The counts are those of the voters, nobody is twice among the voters of an option, and with
a single choice nobody is a voter of two options. -/
structure GroupPoll.Consistent (poll : GroupPoll) : Prop where
  count : ∀ o ∈ poll.options, o.voteCount.toInt = o.voterIds.length
  nodup : ∀ o ∈ poll.options, o.voterIds.Nodup
  single : poll.isMultiple = false → poll.options.Pairwise fun o o' => o.voterIds.Disjoint o'.voterIds

/-- The user is not yet a voter of an option that it lists, and the count has room. With a
single choice it lists at most one option, and is a voter of none. -/
structure GroupPoll.Fair (req : VotePollRequest) (poll : GroupPoll) : Prop where
  new : ∀ o ∈ poll.options, o.id ∈ req.optionIds → req.userId ∉ o.voterIds
  room : ∀ o ∈ poll.options, o.id ∈ req.optionIds → o.voterIds.length + 1 < 2 ^ 31
  one : poll.isMultiple = false →
    poll.options.Pairwise fun o o' => ¬ (o.id ∈ req.optionIds ∧ o'.id ∈ req.optionIds)
  first : poll.isMultiple = false → (∃ o ∈ poll.options, o.id ∈ req.optionIds) →
    ∀ o ∈ poll.options, req.userId ∉ o.voterIds

/-- An increment of 32 bits. -/
theorem toInt_succ (n : Int32) :
    (n + 1).toInt = if n.toInt + 1 = 2 ^ 31 then -2 ^ 31 else n.toInt + 1 := by
  have hlt := n.toInt_lt
  have hle := n.le_toInt
  rw [Int32.toInt_add, show (1 : Int32).toInt = 1 from rfl]
  split
  · rename_i h
    rw [h]
    decide
  · apply Int.bmod_eq_of_le <;> omega

namespace GroupPoll

variable {req : VotePollRequest} {poll : GroupPoll}

/-- A vote for an option, in a poll that is not anonymous. -/
theorem vote_chosen {o : PollOption} (ho : o.id ∈ req.optionIds) :
    o.vote req false = { o with
      voterIds := if req.userId ∈ o.voterIds then o.voterIds else o.voterIds ++ [req.userId],
      voteCount := o.voteCount + 1 } := by
  by_cases hu : req.userId ∈ o.voterIds <;> simp [PollOption.vote, ho, hu]

theorem vote_other {o : PollOption} (ho : o.id ∉ req.optionIds) : o.vote req false = o :=
  if_neg ho

theorem mem_vote_chosen {o : PollOption} (ho : o.id ∈ req.optionIds) :
    req.userId ∈ (o.vote req false).voterIds := by
  rw [vote_chosen ho]
  dsimp only
  split
  · assumption
  · simp

/-- The voters of an option after a vote. -/
theorem mem_vote {o : PollOption} {u : UserId} : u ∈ (o.vote req false).voterIds ↔
    u ∈ o.voterIds ∨ u = req.userId ∧ o.id ∈ req.optionIds := by
  by_cases ho : o.id ∈ req.optionIds
  · rw [vote_chosen ho]
    dsimp only
    split
    · rename_i hu
      simp only [ho, and_true, iff_self_or]
      rintro rfl
      exact hu
    · simp [ho]
  · simp [vote_other ho, ho]

/-- The tally of one option is right after a vote exactly when the user is new and the count has
room. -/
theorem count_vote_iff {o : PollOption} (ho : o.id ∈ req.optionIds)
    (hcount : o.voteCount.toInt = o.voterIds.length) :
    (o.vote req false).voteCount.toInt = (o.vote req false).voterIds.length ↔
      req.userId ∉ o.voterIds ∧ o.voterIds.length + 1 < 2 ^ 31 := by
  have hlt := o.voteCount.toInt_lt
  rw [vote_chosen ho]
  dsimp only
  rw [toInt_succ]
  by_cases hu : req.userId ∈ o.voterIds
  · simp only [hu, if_true, not_true_eq_false, false_and, iff_false]
    split <;> omega
  · simp only [hu, if_false, not_false_eq_true, true_and, List.length_append, List.length_singleton]
    split <;> omega

/-- A vote keeps a poll consistent exactly when it is fair. -/
theorem consistent_vote_iff (h : poll.Consistent) (hanon : poll.isAnonymous = false) :
    (poll.vote req).Consistent ↔ poll.Fair req := by
  have hoptions : (poll.vote req).options = poll.options.map (PollOption.vote req false) := by
    rw [vote, hanon]
  constructor
  · intro h'
    have hcount : ∀ o ∈ poll.options, o.id ∈ req.optionIds →
        req.userId ∉ o.voterIds ∧ o.voterIds.length + 1 < 2 ^ 31 := by
      intro o ho hid
      rw [← count_vote_iff hid (h.count o ho)]
      exact h'.count _ (by rw [hoptions]; exact List.mem_map_of_mem ho)
    have hsingle : poll.isMultiple = false → poll.options.Pairwise fun o o' =>
        (o.vote req false).voterIds.Disjoint (o'.vote req false).voterIds := by
      intro hm
      have hp := h'.single hm
      rwa [hoptions, List.pairwise_map] at hp
    refine ⟨fun o ho hid => (hcount o ho hid).1, fun o ho hid => (hcount o ho hid).2, ?_, ?_⟩
    · intro hm
      refine (hsingle hm).imp ?_
      rintro o o' hdis ⟨ho, ho'⟩
      exact hdis (mem_vote_chosen ho) (mem_vote_chosen ho')
    · rintro hm ⟨o, ho, hid⟩ o' ho' hu
      have hne : o ≠ o' := by
        rintro rfl
        exact (hcount o ho hid).1 hu
      have : Std.Symm fun o o' : PollOption =>
          (o.vote req false).voterIds.Disjoint (o'.vote req false).voterIds := ⟨fun _ _ hd _ hu hu' => hd hu' hu⟩
      have hdis := (hsingle hm).forall ho ho' hne
      exact hdis (mem_vote_chosen hid) (mem_vote.mpr (.inl hu))
  · intro hfair
    constructor
    · intro o' ho'
      rw [hoptions] at ho'
      obtain ⟨o, ho, rfl⟩ := List.mem_map.mp ho'
      by_cases hid : o.id ∈ req.optionIds
      · exact (count_vote_iff hid (h.count o ho)).mpr ⟨hfair.new o ho hid, hfair.room o ho hid⟩
      · rw [vote_other hid]
        exact h.count o ho
    · intro o' ho'
      rw [hoptions] at ho'
      obtain ⟨o, ho, rfl⟩ := List.mem_map.mp ho'
      by_cases hid : o.id ∈ req.optionIds
      · rw [vote_chosen hid, if_neg (hfair.new o ho hid)]
        exact (h.nodup o ho).append (List.nodup_singleton _)
          (List.disjoint_singleton.mpr (hfair.new o ho hid))
      · rw [vote_other hid]
        exact h.nodup o ho
    · intro hm
      rw [hoptions, List.pairwise_map]
      refine ((h.single hm).and (hfair.one hm)).imp_of_mem ?_
      rintro o o' ho ho' ⟨hdis, hnot⟩ u hu hu'
      rw [mem_vote] at hu hu'
      obtain hu | ⟨he, hid⟩ := hu <;> obtain hu' | ⟨he', hid'⟩ := hu'
      · exact hdis hu hu'
      · exact hfair.first hm ⟨o', ho', hid'⟩ o ho (he' ▸ hu)
      · exact hfair.first hm ⟨o, ho, hid⟩ o' ho' (he ▸ hu')
      · exact hnot ⟨hid, hid'⟩

end GroupPoll

namespace Polls

variable {req : VotePollRequest} {t : Polls} {poll : GroupPoll}

/-- A vote is on another poll, it is refused, or the poll is stored with it. -/
theorem find_afterVote {id : String} (h : t.find id = some poll) :
    (t.afterVote req).find id = some (if req.pollId = id ∧ poll.status = "active" then
      poll.vote req else poll) := by
  unfold afterVote votePoll
  cases hf : t.find req.pollId with
  | none =>
    have hne : req.pollId ≠ id := by
      rintro rfl
      rw [h] at hf
      cases hf
    simpa [hne, Except.toOption] using h
  | some p =>
    by_cases hp : p.status = "active"
    · simp only [hp, ne_eq, not_true_eq_false, if_false, Except.toOption, Option.map_some,
        Option.getD_some]
      refine (t.find_modify _ (stored _) (fun _ => rfl) id).trans ?_
      rw [h, Option.map_some]
      obtain ⟨-, hid⟩ := (t.find_eq_some _ _).mp h
      by_cases he : req.pollId = id
      · subst he
        rw [h] at hf
        cases hf
        simp [hid, hp, stored, GroupPoll.vote]
      · have hne : poll.id ≠ req.pollId := fun hk => he (hk.symm.trans hid)
        simp [he, hne]
    · have hno : ¬ (req.pollId = id ∧ poll.status = "active") := by
        rintro ⟨rfl, ha⟩
        rw [h] at hf
        cases hf
        exact hp ha
      simpa [hp, hno, Except.toOption] using h

/-- Every vote on the poll that counts, and is not anonymous, is fair. -/
def AllFair (id : String) : Polls → List VotePollRequest → Prop
  | _, [] => True
  | t, req :: reqs => (∀ poll, req.pollId = id → t.find id = some poll → poll.status = "active" →
      poll.isAnonymous = false → poll.Fair req) ∧ AllFair id (t.afterVote req) reqs

/-- What fair votes keep of a poll. -/
structure Tallied (req : CreatePollRequest) (poll : GroupPoll) : Prop where
  isMultiple : poll.isMultiple = req.isMultiple
  isAnonymous : poll.isAnonymous = req.isAnonymous
  active : poll.status = "active"
  consistent : req.isAnonymous = false → poll.Consistent

theorem tallied_afterVotes {id : String} {new : CreatePollRequest} {reqs : List VotePollRequest}
    (hf : t.find id = some poll) (h : Tallied new poll) (hfair : t.AllFair id reqs) :
    ∃ p, (t.afterVotes reqs).find id = some p ∧ Tallied new p := by
  induction reqs generalizing t poll with
  | nil => exact ⟨poll, hf, h⟩
  | cons req reqs ih =>
    obtain ⟨hreq, hfair⟩ := hfair
    refine ih (find_afterVote hf) ?_ hfair
    split
    · rename_i hcounts
      refine ⟨h.isMultiple, h.isAnonymous, h.active, fun hanon => ?_⟩
      have hpoll : poll.isAnonymous = false := h.isAnonymous.trans hanon
      rw [GroupPoll.consistent_vote_iff (h.consistent hanon) hpoll]
      exact hreq poll hcounts.1 hf hcounts.2 hpoll
    · exact h

/-- A new poll has no voters. -/
theorem tallied_createPoll {groups : Table GroupRow.id} {nanoid : Nat → String} {now : Int}
    {new : CreatePollRequest} {t' : Polls} (h : t.createPoll groups nanoid now new = .ok (poll, t')) :
    t'.find poll.id = some poll ∧ Tallied new poll := by
  unfold createPoll at h
  dsimp only at h
  split at h
  · rename_i hins
    cases h
    have hempty : ∀ o ∈ new.options.zipIdx.map (fun p =>
        (⟨nanoid (p.2 + 1), p.1, [], 0⟩ : PollOption)), o.voterIds = [] ∧ o.voteCount = 0 := by
      intro o ho
      obtain ⟨p, -, rfl⟩ := List.mem_map.mp ho
      exact ⟨rfl, rfl⟩
    refine ⟨by rw [Table.find_insert hins, if_pos rfl], rfl, rfl, rfl, fun _ => ⟨?_, ?_, ?_⟩⟩
    · intro o ho
      rw [(hempty o ho).1, (hempty o ho).2]
      rfl
    · intro o ho
      rw [(hempty o ho).1]
      exact List.nodup_nil
    · intro _
      apply List.pairwise_of_forall_mem_list
      intro o ho o' _
      rw [(hempty o ho).1]
      exact List.disjoint_nil_left _
  · cases h
  · cases h

end Polls

/-- After any votes on a new poll that is not anonymous, all of them fair, the tallies are
consistent, and one vote more leaves them so exactly when it is fair as well. -/
theorem poll_tallies (groups : Table GroupRow.id) (nanoid : Nat → String) (now : Int)
    (new : CreatePollRequest) (t t' : Polls) (poll : GroupPoll)
    (hnew : t.createPoll groups nanoid now new = .ok (poll, t')) (hanon : new.isAnonymous = false)
    (reqs : List VotePollRequest) (hfair : t'.AllFair poll.id reqs) :
    ∃ p, (t'.afterVotes reqs).find poll.id = some p ∧ p.isMultiple = new.isMultiple ∧ p.Consistent ∧
      ∀ req : VotePollRequest, req.pollId = poll.id →
        ((∃ p', ((t'.afterVotes reqs).afterVote req).find poll.id = some p' ∧ p'.Consistent) ↔
          p.Fair req) := by
  obtain ⟨hfind, htallied⟩ := Polls.tallied_createPoll hnew
  obtain ⟨p, hp, htallied⟩ := Polls.tallied_afterVotes hfind htallied hfair
  have hcons := htallied.consistent hanon
  refine ⟨p, hp, htallied.isMultiple, hcons, ?_⟩
  intro req hreq
  rw [← GroupPoll.consistent_vote_iff hcons (htallied.isAnonymous.trans hanon), Polls.find_afterVote hp,
    if_pos ⟨hreq, htallied.active⟩]
  simp

/-- A poll with two options and a single choice. -/
def teaOrCoffee : CreatePollRequest := ⟨"g", "a", "?", ["tea", "coffee"], false, false, 0⟩

def oneGroup : Table GroupRow.id := ⟨[⟨"g", "a", .admin⟩], by decide⟩

/-- Identifiers for a poll and its two options. -/
def threeIds : Nat → String
  | 0 => "p"
  | 1 => "t"
  | _ => "c"

/-- The poll with no votes. -/
def openPoll : GroupPoll :=
  ⟨"p", "g", "a", "?", [⟨"t", "tea", [], 0⟩, ⟨"c", "coffee", [], 0⟩], false, false, 0, 0, "active"⟩

def openPolls : Polls := ⟨[openPoll], by decide⟩

theorem poll_tallies_tea : ∃ p, (openPolls.afterVotes [⟨"p", "u", ["t"]⟩]).find "p" = some p ∧
    p.Consistent := by
  obtain ⟨p, hp, -, hcons, -⟩ := poll_tallies oneGroup threeIds 0 teaOrCoffee ∅ openPolls openPoll rfl
    rfl [⟨"p", "u", ["t"]⟩] (by
      refine ⟨?_, trivial⟩
      intro poll _ hf _ _
      cases hf
      constructor <;> decide)
  exact ⟨p, hp, hcons⟩

/-- `u` votes for tea twice, and tea has two votes from one voter. -/
theorem poll_tallies_broken :
    ¬ ∀ (groups : Table GroupRow.id) (nanoid : Nat → String) (now : Int) (new : CreatePollRequest)
      (t t' : Polls) (poll : GroupPoll), t.createPoll groups nanoid now new = .ok (poll, t') →
      new.isAnonymous = false → ∀ reqs p, (t'.afterVotes reqs).find poll.id = some p →
        p.Consistent := by
  intro h
  have hcons := h oneGroup threeIds 0 teaOrCoffee ∅ openPolls openPoll rfl rfl
    [⟨"p", "u", ["t"]⟩, ⟨"p", "u", ["t"]⟩] _ rfl
  exact absurd (hcons.count _ List.mem_cons_self) (by decide)

end Sandcat
