import Mathlib.Data.List.Induction
import Sandcat.FriendPairs

/-!
# Requests and friends

Two tables keep one fact: two users are friends by the rows of `friends`, and a request between
them is accepted in `friendships`. A request to a friend resets the one table only, a deletion
finds the rows by the request that they name, and the other table is updated for anyone. An
agreement looks up a request by its identifier and asks neither for its status nor for its age.
-/

namespace Sandcat

namespace FriendTables

variable {d : Leniency} {s s' : FriendTables} {now : Int}

/-- The request from `a` to `b` is there and accepted. -/
def AcceptedRequest (s : FriendTables) (a b : UserId) : Prop :=
  ∃ q, s.friendships.find (a, b) = some q ∧ q.status = .accepted

/-- The two rows of the pair are accepted. -/
def AreFriends (s : FriendTables) (a b : UserId) : Prop :=
  s.HasStatus a b .accepted ∧ s.HasStatus b a .accepted

/-- Two users are friends exactly when a request between them is accepted. -/
def Agreeing (s : FriendTables) : Prop :=
  ∀ a b, a ≠ b → (s.AreFriends a b ↔ s.AcceptedRequest a b ∨ s.AcceptedRequest b a)

theorem agreeing_empty : Agreeing empty := by
  intro a b _
  constructor
  · rintro ⟨⟨r, hr, -⟩, -⟩
    cases hr
  · rintro (⟨q, hq, -⟩ | ⟨q, hq, -⟩) <;> cases hq

theorem Paired.hasStatus_comm (h : Paired s) {a b : UserId} {status : FriendshipStatus}
    (hab : s.HasStatus a b status) : s.HasStatus b a status := by
  obtain ⟨r, hr, rfl⟩ := hab
  obtain ⟨r', hr', -, hst, -⟩ := h.mirror hr
  exact ⟨r', hr', hst⟩

/-- The two directions of a pair say the same, so one of them is enough. -/
theorem Paired.areFriends_iff (h : Paired s) {a b : UserId} :
    s.AreFriends a b ↔ s.HasStatus a b .accepted :=
  ⟨fun hab => hab.1, fun hab => ⟨hab, h.hasStatus_comm hab⟩⟩

theorem Paired.agreeing_iff (h : Paired s) : s.Agreeing ↔
    ∀ a b, a ≠ b → (s.HasStatus a b .accepted ↔ s.AcceptedRequest a b ∨ s.AcceptedRequest b a) := by
  simp only [Agreeing, h.areFriends_iff]

/-- A request to a friend is made only where the friend's request is accepted as well. A
deletion is by one of the two, and where they are friends it names the request that their rows
name exactly when the request the other way is not accepted. -/
def KeepsAgreement (d : Leniency) (s : FriendTables) : FriendOp → Prop
  | .createFs _ fs => s.HasStatus fs.userId fs.friendId .accepted →
      s.AcceptedRequest fs.friendId fs.userId
  | .deleteFriend fsId u => ∀ q, s.friendships.byAlt.find fsId = some q →
      (u = q.userId ∨ u = q.friendId) ∧
      ∀ r, s.friends.find (q.userId, q.friendId) = some r → r.status = .accepted →
        (r.fsId = fsId ↔ ¬ s.AcceptedRequest q.friendId q.userId)
  | .updateFs _ => d.textForStatus = false
  | .updateFriendStatus _ _ _ => d.textForStatus = false
  | _ => True

/-- A change of one request, seen at the other pairs. -/
theorem acceptedRequest_of_ne {k : UserId × UserId} {q : FriendshipRow}
    (hfind : ∀ k', s'.friendships.find k' = if k' = k then some q else s.friendships.find k')
    {a b : UserId} (hne : (a, b) ≠ k) : s'.AcceptedRequest a b ↔ s.AcceptedRequest a b := by
  unfold AcceptedRequest
  rw [hfind, if_neg hne]

theorem acceptedRequest_self {a b : UserId} {q : FriendshipRow}
    (hfind : ∀ k', s'.friendships.find k' = if k' = (a, b) then some q else s.friendships.find k') :
    s'.AcceptedRequest a b ↔ q.status = .accepted := by
  unfold AcceptedRequest
  rw [hfind, if_pos rfl]
  constructor
  · rintro ⟨q', hq', hst⟩
    cases hq'
    exact hst
  · exact fun hst => ⟨q, rfl, hst⟩

/-- The request from `a` to `b` changes, and the friends of other pairs do not: what is to be
shown is the agreement at this pair. -/
theorem Agreeing.of_pair {a b : UserId} {q : FriendshipRow} (h : Paired s) (hag : s.Agreeing)
    (h' : Paired s')
    (hfind : ∀ k', s'.friendships.find k' = if k' = (a, b) then some q else s.friendships.find k')
    (hfriends : ∀ k, k ≠ (a, b) → k ≠ (b, a) → s'.friends.find k = s.friends.find k)
    (hpair : a ≠ b → (s'.HasStatus a b .accepted ↔
      q.status = .accepted ∨ s.AcceptedRequest b a)) : s'.Agreeing := by
  rw [h'.agreeing_iff]
  rw [h.agreeing_iff] at hag
  intro x y hne
  by_cases hxy : (x, y) = (a, b)
  · cases hxy
    rw [hpair hne, acceptedRequest_self hfind,
      acceptedRequest_of_ne hfind fun he => hne (congrArg Prod.snd he)]
  · by_cases hyx : (x, y) = (b, a)
    · cases hyx
      have hcomm : s'.HasStatus b a .accepted ↔ s'.HasStatus a b .accepted :=
        ⟨h'.hasStatus_comm, h'.hasStatus_comm⟩
      rw [hcomm, hpair hne.symm, acceptedRequest_self hfind, acceptedRequest_of_ne hfind hxy, or_comm]
    · have hyx' : (y, x) ≠ (a, b) := fun he => hyx (congrArg Prod.swap he)
      rw [acceptedRequest_of_ne hfind hxy, acceptedRequest_of_ne hfind hyx', ← hag x y hne]
      unfold HasStatus
      rw [hfriends _ hxy hyx]

theorem Agreeing.createFs {fsId : String} {fs : FriendRequest} {friendships : Friendships}
    (h : Paired s) (hag : s.Agreeing) (h' : Paired { s with friendships })
    (hok : s.KeepsAgreement d (.createFs fsId fs))
    (ht : s.friendships.upsert (requested fsId now fs) (renewed now fs) (fun _ => rfl)
      (fun _ => rfl) = some friendships) : Agreeing { s with friendships } := by
  have hpending : (((s.friendships.find (requested fsId now fs).pair).map (renewed now fs)).getD
      (requested fsId now fs)).status = .pending := by
    cases s.friendships.find (requested fsId now fs).pair <;> rfl
  apply hag.of_pair h h' (UniqueTable.find_upsert ht) (fun _ _ _ => rfl)
  intro hne
  rw [hpending]
  have hold := h.agreeing_iff.mp hag _ _ hne
  constructor
  · exact fun hst => .inr (hok hst)
  · rintro (hst | hst)
    · cases hst
    · exact hold.mpr (.inr hst)

theorem Agreeing.agree {fs : AgreeReply} {row : FriendshipRow} (h : Paired s) (hag : s.Agreeing)
    (hagrees : Agrees now fs s row s') : s'.Agreeing := by
  have hfind := UniqueTable.find_modify_of_alt hagrees.found (agreed now fs) (fun _ => rfl) fun _ => rfl
  rw [← hagrees.friendships] at hfind
  apply hag.of_pair h (hagrees.paired h) hfind hagrees.friends.other
  intro _
  obtain ⟨r, -, hr, -, -, hst, -⟩ := hagrees.rows h
  constructor
  · exact fun _ => .inl rfl
  · exact fun _ => ⟨r, hr, hst⟩

/-- Rows that name a request are those of its pair. -/
theorem Paired.find_of_fsId (h : Paired s) {q : FriendshipRow} {fsId : String}
    (hq : s.friendships.byAlt.find fsId = some q) {k : UserId × UserId} {r : FriendRow}
    (hr : s.friends.find k = some r) (hfs : r.fsId = fsId) :
    k = (q.userId, q.friendId) ∨ k = (q.friendId, q.userId) := by
  obtain ⟨a, b⟩ := k
  obtain ⟨p, hp, hpair⟩ := h.request hr
  rw [hfs, hq] at hp
  cases hp
  exact hpair.imp Eq.symm fun he => (congrArg Prod.swap he).symm

/-- The deletion of a request that is not there changes nothing. -/
theorem Paired.deleteFriend_unknown (h : Paired s) {fsId : String} (u : UserId)
    (hnone : s.friendships.byAlt.find fsId = none) : (s.deleteFriend now fsId u).2 = s := by
  have hfriends : s.friends.modify (fun r => decide (r.fsId = fsId) && s.takesPart fsId u)
      (unfriended now) (fun _ => rfl) = s.friends := by
    apply Table.modify_eq_self
    intro r hr
    have hne : r.fsId ≠ fsId := by
      intro he
      obtain ⟨q, hq, -⟩ := h.request (a := r.userId) (b := r.friendId)
        ((s.friends.find_eq_some _ r).mpr ⟨hr, rfl⟩)
      rw [he, hnone] at hq
      cases hq
    simp [hne]
  have hfriendships := UniqueTable.modify_of_alt_none hnone (withdrawn now) (fun _ => rfl) fun _ => rfl
  exact congrArg₂ (fun friendships friends => (⟨s.users, friendships, friends⟩ : FriendTables))
    hfriendships hfriends

theorem Agreeing.deleteFriend {fsId : String} {u : UserId} (h : Paired s) (hag : s.Agreeing)
    (hok : s.KeepsAgreement d (.deleteFriend fsId u)) :
    (s.deleteFriend now fsId u).2.Agreeing := by
  cases hq : s.friendships.byAlt.find fsId with
  | none => rwa [h.deleteFriend_unknown u hq]
  | some q =>
    obtain ⟨hu, hother⟩ := hok q hq
    have h' : Paired (s.deleteFriend now fsId u).2 := h.effect (.deleteFriend (d := d) fsId u)
    apply hag.of_pair h h'
      (UniqueTable.find_modify_of_alt hq (withdrawn now) (fun _ => rfl) fun _ => rfl)
    · intro k hk hk'
      rw [find_deleteFriend]
      cases hr : s.friends.find k with
      | none => rfl
      | some r =>
        have hne : r.fsId ≠ fsId := by
          intro he
          obtain hk₁ | hk₁ := h.find_of_fsId hq hr he
          · exact hk hk₁
          · exact hk' hk₁
        simp [hne]
    · intro hne
      have hold := h.agreeing_iff.mp hag q.userId q.friendId hne
      have hdeleted : (withdrawn now q).status ≠ .accepted := by simp [withdrawn]
      simp only [hdeleted, false_or]
      cases hr : s.friends.find (q.userId, q.friendId) with
      | none =>
        -- Without rows the two were not friends, and neither request was accepted.
        have hno : ¬ s.HasStatus q.userId q.friendId .accepted := by
          rintro ⟨r, hr', -⟩
          rw [hr] at hr'
          cases hr'
        have hno' : ¬ (s.deleteFriend now fsId u).2.HasStatus q.userId q.friendId .accepted := by
          rintro ⟨r, hr', -⟩
          rw [find_deleteFriend, hr] at hr'
          cases hr'
        simp only [hno', false_iff]
        exact fun hacc => hno (hold.mpr (.inr hacc))
      | some r =>
        have hpart : r.fsId = fsId → s.takesPart fsId u = true := by
          intro he
          rw [takesPart_iff]
          obtain ⟨r', hr', hfs, -⟩ := h.mirror hr
          obtain rfl | rfl := hu
          · exact ⟨_, r, hr, he⟩
          · exact ⟨_, r', hr', hfs.trans he⟩
        have hstatus : s.HasStatus q.userId q.friendId .accepted ↔ r.status = .accepted := by
          simp [HasStatus, hr]
        rw [hasStatus_deleteFriend hr]
        by_cases hacc : r.status = .accepted
        · have hiff := hother r hr hacc
          by_cases he : r.fsId = fsId
          · simp [he, hpart he, hiff.mp he]
          · simp only [he, false_and, if_false, hacc, true_iff]
            exact Classical.not_not.mp fun hno => he (hiff.mpr hno)
        · have hno : ¬ s.AcceptedRequest q.friendId q.userId :=
            fun ha => hacc (hstatus.mp (hold.mpr (.inr ha)))
          simp only [hno, iff_false]
          split
          · exact FriendshipStatus.noConfusion
          · exact hacc

theorem hasStatus_modify (p : FriendRow → Bool) (f : FriendRow → FriendRow)
    (hf : ∀ r, (f r).pair = r.pair) (hst : ∀ r, (f r).status = r.status) (a b : UserId)
    (status : FriendshipStatus) :
    HasStatus { s with friends := s.friends.modify p f hf } a b status ↔ s.HasStatus a b status := by
  have hkept : ∀ r, (if p r = true then f r else r).status = r.status := by
    intro r
    split
    · exact hst r
    · rfl
  unfold HasStatus
  rw [Table.find_modify]
  cases s.friends.find (a, b) with
  | none => simp
  | some r => simp [hkept]

/-- Updates of friends that leave the status alone. -/
theorem Agreeing.modify (hag : s.Agreeing) (p : FriendRow → Bool) (f : FriendRow → FriendRow)
    (hf : ∀ r, (f r).pair = r.pair) (hst : ∀ r, (f r).status = r.status) :
    Agreeing { s with friends := s.friends.modify p f hf } := by
  intro a b hne
  rw [AreFriends, hasStatus_modify p f hf hst, hasStatus_modify p f hf hst]
  exact hag a b hne

theorem Agreeing.effect {op : FriendOp} (h : Paired s) (hag : s.Agreeing)
    (hok : s.KeepsAgreement d op) (heffect : Effect d now s op s') : s'.Agreeing := by
  have h' := h.effect heffect
  cases heffect with
  | refused _ => exact hag
  | createFs ht => exact hag.createFs h h' hok ht
  | updateFs fs hd =>
    rw [show d.textForStatus = false from hok] at hd
    cases hd
  | agree hagrees _ => exact hag.agree h hagrees
  | deleteFriend fsId u => exact hag.deleteFriend h hok
  | updateFriendRemark u v remark =>
    exact hag.modify _ (remarked now remark) (fun _ => rfl) fun _ => rfl
  | updateFriendStatus u v status hd =>
    rw [show d.textForStatus = false from hok] at hd
    cases hd
  | touchFriends selected => exact hag.modify _ (touched now) (fun _ => rfl) fun _ => rfl
  | writeUser user => exact hag

end FriendTables

/-- In a run whose operations all meet the condition the two tables agree in every state, and a
deletion that meets it, by a user who is neither of the two, changes nothing. -/
theorem tables_agree (d : Leniency) (ops : List (Int × FriendOp))
    (hmeets : FriendTables.empty.Meets d (fun _ s op => s.KeepsAgreement d op) ops) :
    let s := FriendTables.empty.run d ops
    s.Agreeing ∧ ∀ now fsId u, s.KeepsAgreement d (.deleteFriend fsId u) →
      (∀ q, s.friendships.byAlt.find fsId = some q → u ≠ q.userId ∧ u ≠ q.friendId) →
      (s.deleteFriend now fsId u).2 = s := by
  intro s
  have hinv : s.Paired ∧ s.Agreeing := by
    apply hmeets.run (I := fun s => s.Paired ∧ s.Agreeing)
    · intro p _ t ht hok
      have heffect := FriendTables.effect_step d p.1 t p.2
      exact ⟨ht.1.effect heffect, ht.2.effect ht.1 hok heffect⟩
    · exact ⟨FriendTables.paired_empty, FriendTables.agreeing_empty⟩
  refine ⟨hinv.2, ?_⟩
  intro now fsId u hok hout
  cases hq : s.friendships.byAlt.find fsId with
  | none => exact hinv.1.deleteFriend_unknown u hq
  | some q =>
    obtain ⟨hu, -⟩ := hok q hq
    obtain ⟨hne, hne'⟩ := hout q hq
    obtain he | he := hu
    · exact absurd he hne
    · exact absurd he hne'

theorem tables_agree_parted : (FriendTables.empty.run ⟨false, false⟩ parted).Agreeing := by
  refine (tables_agree ⟨false, false⟩ parted ⟨trivial, trivial, ?_, trivial, ?_, trivial⟩).1
  · rintro ⟨r, hr, -⟩
    cases hr
  · intro q hq
    cases hq
    refine ⟨.inl rfl, ?_⟩
    intro r hr _
    cases hr
    refine iff_of_true rfl ?_
    rintro ⟨q, hq, -⟩
    cases hq

/-- The operations that make and end friendships. -/
def FriendOp.isFriendship : FriendOp → Bool
  | .createFs _ _ => true
  | .agreeFriendApplyRequest _ => true
  | .deleteFriend _ _ => true
  | _ => false

/-- `b` agrees to the request of `a`. -/
def befriended : List (Int × FriendOp) :=
  [(1, .createFs "f" (plainRequest "a" "b")), (2, .agreeFriendApplyRequest ⟨"f", none, none⟩)]

/-- `a` asks its friend again, and the request is pending between friends. A stranger deletes the
request of two others. -/
theorem tables_disagree :
    (¬ ∀ (d : Leniency) (ops : List (Int × FriendOp)), (∀ p ∈ ops, p.2.isFriendship = true) →
      (FriendTables.empty.run d ops).Agreeing) ∧
    ¬ ∀ (d : Leniency) (ops : List (Int × FriendOp)) (now : Int) (fsId : String) (u : UserId),
      (∀ p ∈ ops, p.2.isFriendship = true) →
      (∀ q, (FriendTables.empty.run d ops).friendships.byAlt.find fsId = some q →
        u ≠ q.userId ∧ u ≠ q.friendId) →
      ((FriendTables.empty.run d ops).deleteFriend now fsId u).2 = FriendTables.empty.run d ops := by
  constructor
  · intro h
    have hag := h ⟨false, false⟩ (befriended ++ [(3, .createFs "g" (plainRequest "a" "b"))]) (by decide)
    have hfriends := (hag "a" "b" (by decide)).mp ⟨⟨_, rfl, rfl⟩, ⟨_, rfl, rfl⟩⟩
    obtain ⟨q, hq, hst⟩ | ⟨q, hq, -⟩ := hfriends
    · cases hq
      cases hst
    · cases hq
  · intro h
    have hsame := h ⟨false, false⟩ befriended 3 "f" "c" (by decide) (by
      intro q hq
      cases hq
      decide)
    have hrows := congrArg (fun s => s.friendships.rows.map FriendshipRow.status) hsame
    revert hrows
    decide

namespace FriendTables

variable {d : Leniency} {s s' : FriendTables} {now : Int} {a b : UserId}

/-- A request between the two, in either direction. -/
def Between (k : UserId × UserId) (a b : UserId) : Prop := k = (a, b) ∨ k = (b, a)

/-- The operation sets the row of `a` and `b` to `Deleted`. -/
def Ends (s : FriendTables) (op : FriendOp) (a b : UserId) : Prop :=
  ∃ fsId u r, op = .deleteFriend fsId u ∧ s.friends.find (a, b) = some r ∧ r.fsId = fsId ∧
    s.takesPart fsId u = true

/-- In the operations run so far there is a `create_fs` between `a` and `b`, and none after it
has set the pair to `Deleted`. -/
inductive Asked (d : Leniency) (a b : UserId) : List (Int × FriendOp) → Prop where
  | ask (ops : List (Int × FriendOp)) (now : Int) (fsId : String) (fs : FriendRequest) :
      Between (fs.userId, fs.friendId) a b → Asked d a b (ops ++ [(now, .createFs fsId fs)])
  | later (ops : List (Int × FriendOp)) (p : Int × FriendOp) : Asked d a b ops →
      ¬ (empty.run d ops).Ends p.2 a b → Asked d a b (ops ++ [p])

theorem asked_append {ops : List (Int × FriendOp)} {p : Int × FriendOp} (h : Asked d a b (ops ++ [p])) :
    (∃ fsId fs, p.2 = .createFs fsId fs) ∨ ¬ (empty.run d ops).Ends p.2 a b := by
  generalize he : ops ++ [p] = l at h
  cases h with
  | ask ops' now fsId fs _ =>
    obtain ⟨-, hp⟩ := List.append_inj' he rfl
    cases hp
    exact .inl ⟨fsId, fs, rfl⟩
  | later ops' p' _ hno =>
    obtain ⟨rfl, hp⟩ := List.append_inj' he rfl
    cases hp
    exact .inr hno

/-- The clock is not behind the times that are stored, and where an agreement finds rows of the
pair that are not accepted, a request between the two is newer than they are. -/
def AsksAnew (now : Int) (s : FriendTables) (op : FriendOp) : Prop :=
  (∀ q ∈ s.friendships.rows, q.createTime ≤ now) ∧ (∀ r ∈ s.friends.rows, r.updateTime ≤ now) ∧
  ∀ fs q, op = .agreeFriendApplyRequest fs → s.friendships.byAlt.find fs.fsId = some q →
    ∀ k r, Between k q.userId q.friendId → s.friends.find k = some r → r.status ≠ .accepted →
      ∃ q' ∈ s.friendships.rows, Between q'.pair q.userId q.friendId ∧ r.updateTime < q'.createTime

/-- No operation loses a row or makes it older. -/
theorem Effect.not_older {op : FriendOp} (h : Effect d now s op s')
    (hclock : ∀ r ∈ s.friends.rows, r.updateTime ≤ now) {r : FriendRow}
    (hr : s.friends.find (a, b) = some r) :
    ∃ r', s'.friends.find (a, b) = some r' ∧ r.updateTime ≤ r'.updateTime := by
  have hle := hclock r ((s.friends.find_eq_some _ _).mp hr).1
  have hmodify : ∀ (p : FriendRow → Bool) (f : FriendRow → FriendRow) (hf : ∀ r, (f r).pair = r.pair),
      (∀ r, (f r).updateTime = now) → ∃ r', (s.friends.modify p f hf).find (a, b) = some r' ∧
        r.updateTime ≤ r'.updateTime := by
    intro p f hf hnow
    refine ⟨if p r then f r else r, by rw [Table.find_modify, hr]; rfl, ?_⟩
    split
    · rwa [hnow]
    · exact Int.le_refl _
  cases h with
  | agree hagrees hu =>
    rename_i fs row
    by_cases hk : (a, b) = (row.userId, row.friendId)
    · rw [hk] at hr ⊢
      refine ⟨_, hagrees.friends.sender, ?_⟩
      simp only [agreed, hr, Option.map_some, Option.getD_some]
      exact Int.le_refl _
    · by_cases hk' : (a, b) = (row.friendId, row.userId)
      · rw [hk'] at hr ⊢
        refine ⟨_, hagrees.friends.receiver, ?_⟩
        simp only [agreed, hr, Option.map_some, Option.getD_some]
        exact Int.le_refl _
      · exact ⟨r, by rw [hagrees.friends.other _ hk hk', hr], Int.le_refl _⟩
  | deleteFriend fsId u => exact hmodify _ (unfriended now) (fun _ => rfl) fun _ => rfl
  | updateFriendRemark u v remark => exact hmodify _ (remarked now remark) (fun _ => rfl) fun _ => rfl
  | touchFriends selected => exact hmodify _ (touched now) (fun _ => rfl) fun _ => rfl
  | _ => exact ⟨r, hr, Int.le_refl _⟩

theorem Ends.updateTime {op : FriendOp} (h : s.Ends op a b) :
    ∃ r', (s.step d now op).friends.find (a, b) = some r' ∧ r'.updateTime = now := by
  obtain ⟨fsId, u, r, rfl, hr, hfs, hpart⟩ := h
  refine ⟨unfriended now r, ?_, rfl⟩
  refine (find_deleteFriend fsId u (a, b)).trans ?_
  rw [hr, Option.map_some, if_pos ⟨hfs, hpart⟩]

/-- A request that is newer than the row of the pair was made since the pair was last deleted. -/
theorem asked_of_times {ops : List (Int × FriendOp)} (hmeets : empty.Meets d AsksAnew ops)
    {q : FriendshipRow} (hq : q ∈ (empty.run d ops).friendships.rows) (hpair : Between q.pair a b)
    (hnew : ∀ r, (empty.run d ops).friends.find (a, b) = some r → r.updateTime < q.createTime) :
    Asked d a b ops := by
  induction ops using List.reverseRecOn generalizing q with
  | nil => cases hq
  | append_singleton ops p ih =>
    obtain ⟨now, op⟩ := p
    obtain ⟨hmeets, hok, -⟩ := meets_append.mp hmeets
    rw [run_append] at hq hnew
    have heffect := effect_step d now (empty.run d ops) op
    obtain ⟨q₀, hq₀, hpair₀, htime⟩ | ⟨fsId, fs, rfl, hk, -⟩ :=
      heffect.origin ((Table.find_eq_some _ q.id q).mpr ⟨hq, rfl⟩)
    · have hq₀ := ((Table.find_eq_some _ _ _).mp hq₀).1
      by_cases hends : (empty.run d ops).Ends op a b
      · obtain ⟨r', hr', hnow⟩ : ∃ r', ((empty.run d ops).step d now op).friends.find (a, b) = some r' ∧
            r'.updateTime = now := hends.updateTime
        have hlt := hnew r' hr'
        have hle : q₀.createTime ≤ now := hok.1 q₀ hq₀
        omega
      · refine .later ops _ (ih hmeets hq₀ (by rwa [hpair₀]) ?_) hends
        intro r hr
        obtain ⟨r', hr', hle⟩ := heffect.not_older hok.2.1 hr
        have hlt := hnew r' hr'
        omega
    · exact .ask ops now fsId fs (by rwa [hk] at hpair)

/-- Friends are made by agreements only. -/
theorem Effect.agreed_of_accepted {op : FriendOp} (h : Effect d now s op s')
    (hbefore : ¬ s.HasStatus a b .accepted) (hafter : s'.HasStatus a b .accepted) :
    ∃ fs row, op = .agreeFriendApplyRequest fs ∧ s.friendships.byAlt.find fs.fsId = some row ∧
      Between (a, b) row.userId row.friendId := by
  cases h with
  | agree hagrees hu =>
    rename_i fs row
    refine ⟨fs, row, rfl, hagrees.found, ?_⟩
    by_contra hno
    obtain ⟨hk, hk'⟩ := not_or.mp hno
    obtain ⟨r, hr, hst⟩ := hafter
    rw [hagrees.friends.other _ hk hk'] at hr
    exact hbefore ⟨r, hr, hst⟩
  | deleteFriend fsId u =>
    obtain ⟨r', hr', -⟩ := id hafter
    rw [find_deleteFriend, Option.map_eq_some_iff] at hr'
    obtain ⟨r, hr, -⟩ := hr'
    rw [hasStatus_deleteFriend hr] at hafter
    split at hafter
    · cases hafter
    · exact absurd ⟨r, hr, hafter⟩ hbefore
  | updateFriendRemark u v remark =>
    exact absurd ((hasStatus_modify _ (remarked now remark) (fun _ => rfl) (fun _ => rfl) a b _).mp hafter)
      hbefore
  | touchFriends selected =>
    exact absurd ((hasStatus_modify _ (touched now) (fun _ => rfl) (fun _ => rfl) a b _).mp hafter) hbefore
  | _ => exact absurd hafter hbefore

theorem Between.of_between {k : UserId × UserId} {x y : UserId} (hk : Between k x y)
    (hab : Between (a, b) x y) : Between k a b := by
  obtain hab | hab := hab <;> cases hab
  · exact hk
  · exact hk.symm

end FriendTables

/-- In a run whose operations all meet the condition, two users become friends only after a
request between them that is newer than the last deletion of the pair. -/
theorem friendship_needs_request (d : Leniency) (ops : List (Int × FriendOp)) (p : Int × FriendOp)
    (a b : UserId) (hmeets : FriendTables.empty.Meets d FriendTables.AsksAnew (ops ++ [p]))
    (hbefore : ¬ (FriendTables.empty.run d ops).AreFriends a b)
    (hafter : (FriendTables.empty.run d (ops ++ [p])).AreFriends a b) :
    FriendTables.Asked d a b ops := by
  obtain ⟨hmeets, hok, -⟩ := FriendTables.meets_append.mp hmeets
  have h : (FriendTables.empty.run d ops).Paired := FriendTables.paired_empty.run ops
  rw [h.areFriends_iff] at hbefore
  rw [FriendTables.run_append] at hafter
  obtain ⟨fs, row, hop, hrow, hab⟩ :=
    (FriendTables.effect_step d p.1 _ p.2).agreed_of_accepted hbefore hafter.1
  cases hr : (FriendTables.empty.run d ops).friends.find (a, b) with
  | none =>
    apply FriendTables.asked_of_times hmeets ((Table.find_eq_some _ _ _).mp hrow).1
    · exact FriendTables.Between.of_between (.inl rfl) hab
    · intro r hr'
      rw [hr] at hr'
      cases hr'
  | some r =>
    obtain ⟨q', hq', hpair, hlt⟩ := hok.2.2 fs row hop hrow (a, b) r hab hr fun hst =>
      hbefore ⟨r, hr, hst⟩
    apply FriendTables.asked_of_times hmeets hq' (hpair.of_between hab)
    intro r' hr'
    rw [hr] at hr'
    cases hr'
    exact hlt

theorem friendship_needs_request_befriended :
    FriendTables.Asked ⟨false, false⟩ "a" "b" [(1, .createFs "f" (plainRequest "a" "b"))] := by
  apply friendship_needs_request ⟨false, false⟩ _ (2, .agreeFriendApplyRequest ⟨"f", none, none⟩)
  · refine ⟨⟨by decide, by decide, ?_⟩, ⟨by decide, by decide, ?_⟩, trivial⟩
    · intro fs q hop
      cases hop
    · intro fs q _ _ k r _ hr
      cases hr
  · rintro ⟨⟨r, hr, -⟩, -⟩
    cases hr
  · exact ⟨⟨_, rfl, rfl⟩, ⟨_, rfl, rfl⟩⟩

/-- The agreement to the old request is sent once more after the deletion. -/
theorem friendship_revived :
    ¬ ∀ (d : Leniency) (ops : List (Int × FriendOp)) (p : Int × FriendOp) (a b : UserId),
      (∀ p' ∈ ops ++ [p], p'.2.isFriendship = true) →
      ¬ (FriendTables.empty.run d ops).AreFriends a b →
      (FriendTables.empty.run d (ops ++ [p])).AreFriends a b → FriendTables.Asked d a b ops := by
  intro h
  have hasked := h ⟨false, false⟩ (befriended ++ [(3, .deleteFriend "f" "a")])
    (4, .agreeFriendApplyRequest ⟨"f", none, none⟩) "a" "b" (by decide) (by
      rintro ⟨⟨r, hr, hst⟩, -⟩
      cases hr
      cases hst) ⟨⟨_, rfl, rfl⟩, ⟨_, rfl, rfl⟩⟩
  obtain ⟨fsId, fs, hop⟩ | hno := FriendTables.asked_append hasked
  · cases hop
  · exact hno ⟨"f", "a", _, rfl, rfl, rfl, rfl⟩

end Sandcat
