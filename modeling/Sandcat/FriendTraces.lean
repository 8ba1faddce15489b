import Sandcat.FriendPairs
import Sandcat.Lib.Unique
import Mathlib.Data.List.Permutation

/-!
# What a failed request leaves behind

`create_fs` and `agree_friend_apply_request` take two rows from the list of users after their commit.
The list has two rows only if the two users are there and are not one.
-/

namespace Sandcat

/-- A row of `friend_interactions` as `create_fs` makes it; its counters are zero. -/
structure InteractionRow where
  userId : UserId
  friendId : UserId
  lastInteractTime : Int
  deriving DecidableEq, Repr

def InteractionRow.pair (r : InteractionRow) : UserId × UserId := (r.userId, r.friendId)

namespace FriendTables

@[simp] theorem pair_renewed (now : Int) (fs : FriendRequest) (r : FriendshipRow) :
    (renewed now fs r).pair = r.pair :=
  rfl

@[simp] theorem id_renewed (now : Int) (fs : FriendRequest) (r : FriendshipRow) :
    (renewed now fs r).id = r.id :=
  rfl

end FriendTables

structure RequestTables extends FriendTables where
  interactions : Table InteractionRow.pair

namespace RequestTables

open FriendTables

/-- `create_fs` with all the tables it writes. -/
def createFs (fsId : String) (now : Int) (fs : FriendRequest) (s : RequestTables) :
    Except Error (FriendshipWithUser × FriendshipWithUser) × RequestTables :=
  match s.friendships.upsert (requested fsId now fs) (renewed now fs) (pair_renewed now fs)
      (id_renewed now fs) with
  | none => (.error uniqueViolation, s)
  | some friendships =>
    let fsId := ((friendships.find (fs.userId, fs.friendId)).map FriendshipRow.id).getD fsId
    let users := takeUsers fs.userId (s.usersOf fs.userId fs.friendId)
    let interactions := (s.interactions.insertNew ⟨fs.userId, fs.friendId, now⟩).insertNew
      ⟨fs.friendId, fs.userId, now⟩
    (users.map (packRequest fsId now fs), { s with friendships, interactions })

/-- Without the interactions it is `create_fs` on the tables of friends. -/
theorem createFs_toFriendTables (fsId : String) (now : Int) (fs : FriendRequest)
    (s : RequestTables) :
    (s.createFs fsId now fs).1 = (s.toFriendTables.createFs fsId now fs).1 ∧
      (s.createFs fsId now fs).2.toFriendTables = (s.toFriendTables.createFs fsId now fs).2 := by
  unfold createFs FriendTables.createFs
  cases s.friendships.upsert (requested fsId now fs) (renewed now fs) (fun _ => rfl) fun _ => rfl with
  | none => exact ⟨rfl, rfl⟩
  | some friendships => exact ⟨rfl, rfl⟩

end RequestTables

/-- A call answers with the values it should, or fails without a panic and without a trace. -/
def Traceless {σ α : Type} (s : σ) (described : α → Prop) (r : Except Error α × σ) : Prop :=
  (∃ a, r.1 = .ok a ∧ described a) ∨ ∃ e, r.1 = .error e ∧ e ≠ .panic ∧ r.2 = s

namespace FriendTables

/-- Two users that are there. -/
def BothUsers (s : FriendTables) (u v : UserId) : Prop :=
  u ≠ v ∧ (∃ user, s.users.find u = some user) ∧ ∃ friend, s.users.find v = some friend

/-- The answers of `create_fs` describe the two users. -/
def DescribesRequest (s : FriendTables) (now : Int) (fs : FriendRequest)
    (a : FriendshipWithUser × FriendshipWithUser) : Prop :=
  ∃ fsId user friend, s.users.find fs.userId = some user ∧
    s.users.find fs.friendId = some friend ∧ a = packRequest fsId now fs (user, friend)

/-- The answers of `agree_friend_apply_request` describe the two users of the request. -/
def DescribesFriends (s : FriendTables) (now : Int) (fs : AgreeReply) (a : Friend × Friend) : Prop :=
  ∃ row user friend, s.friendships.byAlt.find fs.fsId = some row ∧
    s.users.find row.userId = some user ∧ s.users.find row.friendId = some friend ∧
    a = packFriends now (agreed now fs row) (user, friend)

variable {s : FriendTables} {u v : UserId}

/-- The list of users has the two of them, in some order. -/
theorem usersOf_perm (h : u ≠ v) :
    (s.usersOf u v).Perm ((s.users.find u).toList ++ (s.users.find v).toList) := by
  have hperm := Unique.filter_append_perm (p := fun r : UserRow => decide (r.id = u))
    (q := fun r : UserRow => decide (r.id = v)) s.users.rows (by
      intro r _ hr
      simp only [decide_eq_true_eq] at hr
      exact h (hr.1.symm.trans hr.2))
  rw [s.users.filter_key, s.users.filter_key] at hperm
  refine (hperm.trans (.of_eq ?_)).symm
  simp only [usersOf, Bool.decide_or]

/-- A list without two users is too short. -/
theorem takeUsers_short {users : List UserRow} (h : users.length < 2) :
    takeUsers u users = .error .panic := by
  match users with
  | [] => rfl
  | [_] => rfl
  | _ :: _ :: _ =>
    rw [List.length_cons, List.length_cons] at h
    omega

theorem length_usersOf_lt (h : ¬s.BothUsers u v) : (s.usersOf u v).length < 2 := by
  by_cases huv : u = v
  · have hone : s.usersOf u v = (s.users.find u).toList := by
      rw [← s.users.filter_key, usersOf]
      simp [huv]
    rw [hone]
    cases s.users.find u <;> simp
  · rw [(usersOf_perm huv).length_eq]
    cases hu : s.users.find u with
    | none => cases s.users.find v <;> simp
    | some user =>
      cases hv : s.users.find v with
      | none => simp
      | some friend => exact absurd ⟨huv, ⟨user, hu⟩, friend, hv⟩ h

/-- The two users are taken from the list in the right order, or the list is too short. -/
theorem takeUsers_cases (s : FriendTables) (u v : UserId) :
    (∃ user friend, s.BothUsers u v ∧ s.users.find u = some user ∧ s.users.find v = some friend ∧
      takeUsers u (s.usersOf u v) = .ok (user, friend)) ∨
    ¬s.BothUsers u v ∧ takeUsers u (s.usersOf u v) = .error .panic := by
  by_cases hboth : s.BothUsers u v
  · obtain ⟨huv, ⟨user, hu⟩, friend, hv⟩ := hboth
    have huser : user.id = u := ((s.users.find_eq_some _ _).mp hu).2
    have hfriend : friend.id = v := ((s.users.find_eq_some _ _).mp hv).2
    have hperm := usersOf_perm (s := s) huv
    rw [hu, hv] at hperm
    refine .inl ⟨user, friend, ⟨huv, ⟨user, hu⟩, friend, hv⟩, hu, hv, ?_⟩
    -- the first row is the friend if its id is not the one that asks
    obtain hlist | hlist := List.perm_pair.mp hperm
    · rw [hlist, takeUsers, if_pos huser]
    · rw [hlist, takeUsers, if_neg (fun h => huv (h.symm.trans hfriend))]
  · exact .inr ⟨hboth, takeUsers_short (length_usersOf_lt hboth)⟩

end FriendTables

namespace RequestTables

open FriendTables

/-- The identifier drawn for a new pair is the one of another request. -/
def IdTaken (s : RequestTables) (fsId : String) (fs : FriendRequest) : Prop :=
  s.friendships.find (fs.userId, fs.friendId) = none ∧ ∃ r ∈ s.friendships.rows, r.id = fsId

variable {s : RequestTables} {fsId : String} {now : Int}

/-- `create_fs` is refused, or its answer is put together from the users. -/
theorem createFs_cases (fsId : String) (now : Int) (fs : FriendRequest) (s : RequestTables) :
    (s.IdTaken fsId fs ∧ s.createFs fsId now fs = (.error uniqueViolation, s)) ∨
    ¬s.IdTaken fsId fs ∧ ∃ id s', s.createFs fsId now fs =
      ((takeUsers fs.userId (s.usersOf fs.userId fs.friendId)).map (packRequest id now fs), s') := by
  have hiff : s.friendships.upsert (requested fsId now fs) (renewed now fs) (fun _ => rfl)
      (fun _ => rfl) = none ↔ s.IdTaken fsId fs := UniqueTable.upsert_eq_none_iff
  unfold createFs
  cases h : s.friendships.upsert (requested fsId now fs) (renewed now fs) (fun _ => rfl)
      fun _ => rfl with
  | none => exact .inl ⟨hiff.mp h, rfl⟩
  | some friendships =>
    refine .inr ⟨fun ht => ?_, _, _, rfl⟩
    rw [hiff.mpr ht] at h
    cases h

theorem traceless_createFs_iff (fs : FriendRequest) :
    Traceless s (s.DescribesRequest now fs) (s.createFs fsId now fs) ↔
      s.IdTaken fsId fs ∨ s.BothUsers fs.userId fs.friendId := by
  obtain ⟨htaken, he⟩ | ⟨htaken, id, s', he⟩ := createFs_cases fsId now fs s
  · rw [he]
    exact iff_of_true (.inr ⟨_, rfl, by simp [uniqueViolation], rfl⟩) (.inl htaken)
  · obtain ⟨user, friend, hboth, hu, hf, htake⟩ | ⟨hboth, htake⟩ :=
      takeUsers_cases s.toFriendTables fs.userId fs.friendId
    · rw [he, htake]
      exact iff_of_true (.inl ⟨_, rfl, id, user, friend, hu, hf, rfl⟩) (.inr hboth)
    · rw [he, htake]
      refine iff_of_false ?_ (not_or.mpr ⟨htaken, hboth⟩)
      rintro (⟨a, ha, -⟩ | ⟨e, herror, hne, -⟩)
      · cases ha
      · exact hne (Except.error.inj herror).symm

end RequestTables

namespace FriendTables

/-- An agreement to a request that is not there, to a request to oneself, or between two users that
are there. -/
def Agreeable (s : FriendTables) (fs : AgreeReply) : Prop :=
  ∀ row, s.friendships.byAlt.find fs.fsId = some row →
    row.userId = row.friendId ∨ s.BothUsers row.userId row.friendId

theorem traceless_agree_iff {s : FriendTables} {now : Int} (fs : AgreeReply) :
    Traceless s (s.DescribesFriends now fs) (s.agreeFriendApplyRequest now fs) ↔
      s.Agreeable fs := by
  unfold agreeFriendApplyRequest
  cases hrow : s.friendships.byAlt.find fs.fsId with
  | none =>
    refine iff_of_true (.inr ⟨_, rfl, by simp [rowNotFound], rfl⟩) ?_
    intro row h
    rw [hrow] at h
    cases h
  | some row =>
    have hiff : s.Agreeable fs ↔ row.userId = row.friendId ∨ s.BothUsers row.userId row.friendId :=
      ⟨fun h => h row hrow, fun h row' h' => by rwa [← Option.some.inj (hrow.symm.trans h')]⟩
    rw [hiff]
    dsimp only
    obtain ⟨hself, hnone⟩ | ⟨hne, t', hsome, -⟩ := upsertAll_cases now (agreed now fs row) s.friends
    · rw [hnone]
      exact iff_of_true (.inr ⟨_, rfl, by simp, rfl⟩) (.inl hself)
    · rw [hsome]
      obtain ⟨user, friend, hboth, hu, hf, htake⟩ | ⟨hboth, htake⟩ :=
        takeUsers_cases s row.userId row.friendId
      · refine iff_of_true (.inl ⟨_, ?_, row, user, friend, hrow, hu, hf, rfl⟩) (.inr hboth)
        exact congrArg (Except.map _) htake
      · refine iff_of_false ?_ (not_or.mpr ⟨hne, hboth⟩)
        have hpanic : (takeUsers (agreed now fs row).userId (s.usersOf (agreed now fs row).userId
            (agreed now fs row).friendId)).map (packFriends now (agreed now fs row)) =
            .error .panic := congrArg (Except.map _) htake
        rintro (⟨a, ha, -⟩ | ⟨e, herror, hpanics, -⟩)
        · rw [hpanic] at ha
          cases ha
        · rw [hpanic] at herror
          exact hpanics (Except.error.inj herror).symm

end FriendTables

/-- A request leaves no trace when it fails if and only if it is refused for its identifier or both
users are there, and an agreement if and only if there is no such request, the request is to
oneself, or both users are there. -/
theorem failed_request_traceless_iff (s : RequestTables) (fsId : String) (now : Int)
    (fs : FriendRequest) (reply : AgreeReply) :
    (Traceless s (s.DescribesRequest now fs) (s.createFs fsId now fs) ↔
      s.IdTaken fsId fs ∨ s.BothUsers fs.userId fs.friendId) ∧
    (Traceless s.toFriendTables (s.DescribesFriends now reply)
        (s.agreeFriendApplyRequest now reply) ↔
      s.Agreeable reply) :=
  ⟨RequestTables.traceless_createFs_iff fs, FriendTables.traceless_agree_iff reply⟩

/-- A request to a friend who is not there stays in the tables after the panic, and so does the
agreement to it. -/
theorem failed_request_leaves_trace :
    let s : RequestTables := ⟨⟨Table.empty.insertNew (plainUser "a"), ∅, ∅⟩, ∅⟩
    let r := s.createFs "f" 1 (plainRequest "a" "b")
    ¬Traceless s (s.DescribesRequest 1 (plainRequest "a" "b")) r ∧
      ¬Traceless r.2.toFriendTables (r.2.DescribesFriends 2 ⟨"f", none, none⟩)
        (r.2.agreeFriendApplyRequest 2 ⟨"f", none, none⟩) := by
  refine ⟨?_, ?_⟩
  · rintro (⟨a, ha, -⟩ | ⟨e, he, hne, -⟩)
    · cases ha
    · cases he
      exact hne rfl
  · rintro (⟨a, ha, -⟩ | ⟨e, he, hne, -⟩)
    · cases ha
    · cases he
      exact hne rfl

end Sandcat
