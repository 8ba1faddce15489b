import Sandcat.Friends
import Sandcat.Lib.Remote

/-!
# Friends in pairs

The two rows of a pair are inserted, revived and deleted together: each of them names the
same request, and the request is between the two. Whatever is run, this is kept. Deletion
goes by the request that the rows name, which need not be the one accepted last.
-/

namespace Sandcat

namespace FriendTables

variable {d : Leniency} {s s' : FriendTables} {now : Int}

@[simp] theorem pair_senderRow (now : Int) (friendship : FriendshipRow) :
    (senderRow now friendship).pair = (friendship.userId, friendship.friendId) := rfl
@[simp] theorem pair_receiverRow (now : Int) (friendship : FriendshipRow) :
    (receiverRow now friendship).pair = (friendship.friendId, friendship.userId) := rfl

/-- What the upsert of an accepted request does to the rows of `friends`. -/
structure Accepts (now : Int) (friendship : FriendshipRow) (t t' : Table FriendRow.pair) : Prop where
  sender : t'.find (friendship.userId, friendship.friendId) =
    some (((t.find (friendship.userId, friendship.friendId)).map
      (revived (senderRow now friendship))).getD (senderRow now friendship))
  receiver : t'.find (friendship.friendId, friendship.userId) =
    some (((t.find (friendship.friendId, friendship.userId)).map
      (revived (receiverRow now friendship))).getD (receiverRow now friendship))
  other : ∀ k, k ≠ (friendship.userId, friendship.friendId) →
    k ≠ (friendship.friendId, friendship.userId) → t'.find k = t.find k

/-- The upsert is refused for a request to oneself and for no other. -/
theorem upsertAll_cases (now : Int) (friendship : FriendshipRow) (t : Table FriendRow.pair) :
    friendship.userId = friendship.friendId ∧
      t.upsertAll [senderRow now friendship, receiverRow now friendship] revived pair_revived = none ∨
    friendship.userId ≠ friendship.friendId ∧ ∃ t',
      t.upsertAll [senderRow now friendship, receiverRow now friendship] revived pair_revived =
        some t' ∧ Accepts now friendship t t' := by
  have hnodup : ([senderRow now friendship, receiverRow now friendship].map FriendRow.pair).Nodup ↔
      friendship.userId ≠ friendship.friendId := by
    simp only [List.map_cons, List.map_nil, List.nodup_cons, List.mem_singleton, pair_senderRow,
      pair_receiverRow, Prod.mk.injEq, List.not_mem_nil, not_false_eq_true, List.nodup_nil, and_true,
      ne_eq]
    constructor
    · exact fun h he => h ⟨he, he.symm⟩
    · exact fun h he => h he.1
  unfold Table.upsertAll
  by_cases he : friendship.userId = friendship.friendId
  · refine .inl ⟨he, ?_⟩
    rw [if_neg (fun h => hnodup.mp h he)]
  · refine .inr ⟨he, _, if_pos (hnodup.mpr he), ?_⟩
    have hne : (receiverRow now friendship).pair ≠ (senderRow now friendship).pair :=
      fun h => he (congrArg Prod.snd h)
    constructor
    · rw [List.foldl_cons, List.foldl_cons, List.foldl_nil, ← pair_senderRow now, Table.find_upsert,
        if_neg hne.symm, Table.find_upsert, if_pos rfl]
    · rw [List.foldl_cons, List.foldl_cons, List.foldl_nil, ← pair_receiverRow now, Table.find_upsert,
        if_pos rfl, Table.find_upsert, if_neg hne]
    · intro k hk hk'
      rw [← pair_senderRow now] at hk
      rw [← pair_receiverRow now] at hk'
      rw [List.foldl_cons, List.foldl_cons, List.foldl_nil, Table.find_upsert, if_neg hk',
        Table.find_upsert, if_neg hk]

/-- A request is agreed to: it is there, it is not to oneself, and the two rows are written. -/
structure Agrees (now : Int) (fs : AgreeReply) (s : FriendTables) (row : FriendshipRow)
    (s' : FriendTables) : Prop where
  found : s.friendships.byAlt.find fs.fsId = some row
  distinct : row.userId ≠ row.friendId
  friendships : s'.friendships = s.friendships.modify (fun r => r.id = fs.fsId) (agreed now fs)
    (fun _ => rfl) fun _ => rfl
  friends : Accepts now (agreed now fs row) s.friends s'.friends

/-- `agree_friend_apply_request` is refused and changes nothing, or it agrees to a request and
its answer is put together from the users. -/
theorem agree_cases (now : Int) (fs : AgreeReply) (s : FriendTables) :
    (∃ e, s.agreeFriendApplyRequest now fs = (.error e, s)) ∨
    ∃ row s', Agrees now fs s row s' ∧ s.agreeFriendApplyRequest now fs =
      ((takeUsers row.userId (s.usersOf row.userId row.friendId)).map
        (packFriends now (agreed now fs row)), s') := by
  unfold agreeFriendApplyRequest
  cases hrow : s.friendships.byAlt.find fs.fsId with
  | none => exact .inl ⟨_, rfl⟩
  | some row =>
    dsimp only
    obtain ⟨-, hnone⟩ | ⟨hne, t', hsome, haccepts⟩ :=
      upsertAll_cases now (agreed now fs row) s.friends
    · rw [hnone]
      exact .inl ⟨_, rfl⟩
    · rw [hsome]
      exact .inr ⟨row, _, ⟨hrow, hne, rfl, haccepts⟩, rfl⟩

theorem takesPart_iff {fsId : String} {u : UserId} :
    s.takesPart fsId u = true ↔ ∃ v r, s.friends.find (u, v) = some r ∧ r.fsId = fsId := by
  simp only [takesPart, List.any_eq_true, decide_eq_true_eq, Table.find_eq_some, FriendRow.pair]
  constructor
  · rintro ⟨r, hr, rfl, rfl⟩
    exact ⟨_, r, ⟨hr, rfl⟩, rfl⟩
  · rintro ⟨v, r, ⟨hr, hk⟩, rfl⟩
    exact ⟨r, hr, rfl, congrArg Prod.fst hk⟩

theorem find_deleteFriend (fsId : String) (u : UserId) (k : UserId × UserId) :
    (s.deleteFriend now fsId u).2.friends.find k = (s.friends.find k).map fun r =>
      if r.fsId = fsId ∧ s.takesPart fsId u = true then unfriended now r else r := by
  refine (Table.find_modify _ _ (unfriended now) (fun _ => rfl) k).trans ?_
  simp only [Bool.and_eq_true, decide_eq_true_eq]

/-- What an operation can do: it is refused, or it has its one effect. -/
inductive Effect (d : Leniency) (now : Int) (s : FriendTables) : FriendOp → FriendTables → Prop where
  | refused (op : FriendOp) : Effect d now s op s
  | createFs {fsId : String} {fs : FriendRequest} {friendships : Friendships}
      (h : s.friendships.upsert (requested fsId now fs) (renewed now fs) (fun _ => rfl)
        (fun _ => rfl) = some friendships) : Effect d now s (.createFs fsId fs) { s with friendships }
  | updateFs (fs : FsUpdate) (hd : d.textForStatus = true) : Effect d now s (.updateFs fs) { s with
      friendships := s.friendships.modify (fun r => r.id = fs.id) (amended now fs) (fun _ => rfl)
        fun _ => rfl }
  | agree {fs : AgreeReply} {row : FriendshipRow} {s' : FriendTables} (h : Agrees now fs s row s')
      (hu : s'.users = s.users) : Effect d now s (.agreeFriendApplyRequest fs) s'
  | deleteFriend (fsId : String) (u : UserId) :
      Effect d now s (.deleteFriend fsId u) (s.deleteFriend now fsId u).2
  | updateFriendRemark (u v : UserId) (remark : String) :
      Effect d now s (.updateFriendRemark u v remark) { s with
        friends := s.friends.modify (fun r => r.pair = (u, v)) (remarked now remark) fun _ => rfl }
  | updateFriendStatus (u v : UserId) (status : FriendshipStatus) (hd : d.textForStatus = true) :
      Effect d now s (.updateFriendStatus u v status) { s with
        friendships := s.friendships.modify (fun r => r.pair = (u, v) ∨ r.pair = (v, u))
          (restated status) (fun _ => rfl) fun _ => rfl }
  | touchFriends (selected : FriendRow → Bool) : Effect d now s (.touchFriends selected) { s with
      friends := s.friends.modify selected (touched now) fun _ => rfl }
  | writeUser (user : UserRow) : Effect d now s (.writeUser user) { s with
      users := s.users.upsert user (overwritten user) fun _ => rfl }

theorem effect_step (d : Leniency) (now : Int) (s : FriendTables) (op : FriendOp) :
    Effect d now s op (s.step d now op) := by
  cases op with
  | createFs fsId fs =>
    simp only [step, FriendTables.createFs]
    split
    · exact .refused _
    · rename_i t ht
      exact .createFs ht
  | updateFs fs =>
    simp only [step, FriendTables.updateFs]
    split
    · rename_i hd
      split
      · exact .refused _
      · exact .updateFs fs hd
    · exact .refused _
  | agreeFriendApplyRequest fs =>
    simp only [step]
    obtain ⟨e, he⟩ | ⟨row, s', hagrees, he⟩ := agree_cases now fs s
    · rw [he]
      exact .refused _
    · have hu : (s.agreeFriendApplyRequest now fs).2.users = s.users := by
        unfold agreeFriendApplyRequest
        split
        · rfl
        · dsimp only
          split <;> rfl
      rw [he] at hu ⊢
      exact .agree hagrees hu
  | deleteFriend fsId u => exact .deleteFriend fsId u
  | updateFriendRemark u v remark =>
    simp only [step, FriendTables.updateFriendRemark]
    split
    · exact .refused _
    · exact .updateFriendRemark u v remark
  | updateFriendStatus u v status =>
    simp only [step, FriendTables.updateFriendStatus]
    split
    · rename_i hd
      exact .updateFriendStatus u v status hd
    · exact .refused _
  | touchFriends selected =>
    simp only [step, FriendTables.touchFriends]
    split
    · exact .touchFriends selected
    · exact .refused _
  | writeUser user => exact .writeUser user

/-- No operation loses a request or turns it to another pair. -/
theorem Effect.keeps {op : FriendOp} (h : Effect d now s op s') :
    UniqueTable.Keeps s.friendships s'.friendships := by
  cases h with
  | createFs ht => exact UniqueTable.keeps_upsert ht
  | updateFs fs _ => exact s.friendships.keeps_modify _ (amended now fs) (fun _ => rfl) fun _ => rfl
  | agree hagrees _ =>
    rw [hagrees.friendships]
    exact s.friendships.keeps_modify _ (agreed now _) (fun _ => rfl) fun _ => rfl
  | deleteFriend fsId u =>
    exact s.friendships.keeps_modify _ (withdrawn now) (fun _ => rfl) fun _ => rfl
  | updateFriendStatus u v status _ =>
    exact s.friendships.keeps_modify _ (restated status) (fun _ => rfl) fun _ => rfl
  | _ => exact .refl _

/-- Every request was there before, with its pair and its time of creation, or has just been
made. -/
theorem Effect.origin {op : FriendOp} (h : Effect d now s op s') {id : String} {q' : FriendshipRow}
    (hq' : s'.friendships.byAlt.find id = some q') :
    (∃ q, s.friendships.byAlt.find id = some q ∧ q.pair = q'.pair ∧ q.createTime = q'.createTime) ∨
    ∃ fsId fs, op = .createFs fsId fs ∧ q'.pair = (fs.userId, fs.friendId) ∧ q'.createTime = now := by
  have hmodify : ∀ (p : FriendshipRow → Bool) (f : FriendshipRow → FriendshipRow)
      (hid : ∀ r, (f r).id = r.id), (∀ r, (f r).pair = r.pair ∧ (f r).createTime = r.createTime) →
      (s.friendships.byAlt.modify p f hid).find id = some q' →
      ∃ q, s.friendships.byAlt.find id = some q ∧ q.pair = q'.pair ∧ q.createTime = q'.createTime := by
    intro p f hid hf hq
    rw [Table.find_modify, Option.map_eq_some_iff] at hq
    obtain ⟨q, hq, rfl⟩ := hq
    refine ⟨q, hq, ?_⟩
    split
    · exact ⟨(hf q).1.symm, (hf q).2.symm⟩
    · exact ⟨rfl, rfl⟩
  cases h with
  | createFs ht =>
    obtain ⟨hq, -⟩ | rfl | ⟨q, -, hpair, rfl⟩ := UniqueTable.find_alt_upsert ht hq'
    · exact .inl ⟨q', hq, rfl, rfl⟩
    · exact .inr ⟨_, _, rfl, rfl, rfl⟩
    · exact .inr ⟨_, _, rfl, hpair, rfl⟩
  | updateFs fs _ => exact .inl (hmodify _ (amended now fs) (fun _ => rfl) (fun _ => ⟨rfl, rfl⟩) hq')
  | agree hagrees _ =>
    rw [hagrees.friendships] at hq'
    exact .inl (hmodify _ (agreed now _) (fun _ => rfl) (fun _ => ⟨rfl, rfl⟩) hq')
  | deleteFriend fsId u =>
    exact .inl (hmodify _ (withdrawn now) (fun _ => rfl) (fun _ => ⟨rfl, rfl⟩) hq')
  | updateFriendStatus u v status _ =>
    exact .inl (hmodify _ (restated status) (fun _ => rfl) (fun _ => ⟨rfl, rfl⟩) hq')
  | _ => exact .inl ⟨q', hq', rfl, rfl⟩

/-- The rows of a pair agree, and the request that they name is between the two. -/
structure Paired (s : FriendTables) : Prop where
  distinct : ∀ {a b r}, s.friends.find (a, b) = some r → a ≠ b
  mirror : ∀ {a b r}, s.friends.find (a, b) = some r → ∃ r', s.friends.find (b, a) = some r' ∧
    r'.fsId = r.fsId ∧ r'.status = r.status ∧ r'.source = r.source
  request : ∀ {a b r}, s.friends.find (a, b) = some r →
    ∃ q, s.friendships.byAlt.find r.fsId = some q ∧ (q.pair = (a, b) ∨ q.pair = (b, a))

theorem paired_empty : Paired empty := by
  constructor
  · intro a b r h
    cases h
  · intro a b r h
    cases h
  · intro a b r h
    cases h

/-- An update of rows that treats the two of a pair alike. -/
theorem Paired.update {g : FriendRow → FriendRow} (h : Paired s)
    (hfind : ∀ k, s'.friends.find k = (s.friends.find k).map g) (hid : ∀ r, (g r).fsId = r.fsId)
    (hsource : ∀ r, (g r).source = r.source)
    (hstatus : ∀ r r', r'.fsId = r.fsId → r'.status = r.status → (g r').status = (g r).status)
    (hkeeps : UniqueTable.Keeps s.friendships s'.friendships) : Paired s' := by
  have hold : ∀ {k r}, s'.friends.find k = some r → ∃ q, s.friends.find k = some q ∧ r = g q := by
    intro k r hr
    rw [hfind, Option.map_eq_some_iff] at hr
    obtain ⟨q, hq, rfl⟩ := hr
    exact ⟨q, hq, rfl⟩
  constructor
  · intro a b r hr
    obtain ⟨q, hq, -⟩ := hold hr
    exact h.distinct hq
  · intro a b r hr
    obtain ⟨q, hq, rfl⟩ := hold hr
    obtain ⟨q', hq', hfs, hst, hso⟩ := h.mirror hq
    refine ⟨g q', by rw [hfind, hq']; rfl, ?_, hstatus _ _ hfs hst, ?_⟩
    · rw [hid, hid, hfs]
    · rw [hsource, hsource, hso]
  · intro a b r hr
    obtain ⟨q, hq, rfl⟩ := hold hr
    obtain ⟨p, hp, hpair⟩ := h.request hq
    obtain ⟨p', hp', hpair'⟩ := hkeeps _ _ hp
    rw [hid]
    exact ⟨p', hp', by rwa [hpair']⟩

/-- Updates of rows that touch neither what they name nor their status. -/
theorem Paired.modify (h : Paired s) (p : FriendRow → Bool) (f : FriendRow → FriendRow)
    (hf : ∀ r, (f r).pair = r.pair) (hid : ∀ r, (f r).fsId = r.fsId)
    (hsource : ∀ r, (f r).source = r.source) (hstatus : ∀ r, (f r).status = r.status) :
    Paired { s with friends := s.friends.modify p f hf } := by
  apply h.update (g := fun r => if p r then f r else r)
  · exact fun k => Table.find_modify _ _ _ hf k
  · intro r
    split
    · exact hid r
    · rfl
  · intro r
    split
    · exact hsource r
    · rfl
  · intro r r' _ hst
    have hkept : ∀ q, (if p q = true then f q else q).status = q.status := by
      intro q
      split
      · exact hstatus q
      · rfl
    rw [hkept, hkept, hst]
  · exact .refl _

theorem Paired.of_friends (h : Paired s) (hsame : s'.friends = s.friends)
    (hkeeps : UniqueTable.Keeps s.friendships s'.friendships) : Paired s' := by
  apply h.update (g := id)
  · intro k
    rw [hsame, Option.map_id_fun, id]
  · exact fun _ => rfl
  · exact fun _ => rfl
  · exact fun _ _ _ hst => hst
  · exact hkeeps

/-- The two rows after a request is agreed to name the request that they named before, or
else the one agreed to. -/
theorem Agrees.rows {fs : AgreeReply} {row : FriendshipRow} (hagrees : Agrees now fs s row s')
    (h : Paired s) : ∃ r r', s'.friends.find (row.userId, row.friendId) = some r ∧
      s'.friends.find (row.friendId, row.userId) = some r' ∧ r'.fsId = r.fsId ∧
      r.status = .accepted ∧ r'.status = .accepted ∧ r.source = row.source ∧ r'.source = row.source ∧
      r.fsId = ((s.friends.find (row.userId, row.friendId)).map FriendRow.fsId).getD fs.fsId := by
  have hid : row.id = fs.fsId := ((Table.find_eq_some _ _ _).mp hagrees.found).2
  refine ⟨_, _, hagrees.friends.sender, hagrees.friends.receiver, ?_⟩
  simp only [agreed]
  cases hq : s.friends.find (row.userId, row.friendId) with
  | none =>
    have hq' : s.friends.find (row.friendId, row.userId) = none := by
      cases hq' : s.friends.find (row.friendId, row.userId) with
      | none => rfl
      | some r =>
        obtain ⟨r', hr', -⟩ := h.mirror hq'
        rw [hq] at hr'
        cases hr'
    simp [hq', senderRow, receiverRow, hid]
  | some q =>
    obtain ⟨q', hq', hfs, -⟩ := h.mirror hq
    simp [hq', revived, senderRow, receiverRow, hfs]

theorem Agrees.paired {fs : AgreeReply} {row : FriendshipRow} (hagrees : Agrees now fs s row s')
    (h : Paired s) : Paired s' := by
  have hkeeps : UniqueTable.Keeps s.friendships s'.friendships := by
    rw [hagrees.friendships]
    exact s.friendships.keeps_modify _ (agreed now fs) (fun _ => rfl) fun _ => rfl
  obtain ⟨r₁, r₂, h₁, h₂, hfs, hst₁, hst₂, hso₁, hso₂, hid⟩ := hagrees.rows h
  have hreq : ∃ q, s'.friendships.byAlt.find r₁.fsId = some q ∧
      (q.pair = row.pair ∨ q.pair = row.pair.swap) := by
    cases hq : s.friends.find (row.userId, row.friendId) with
    | none =>
      obtain ⟨q, hq', hpair⟩ := hkeeps _ _ hagrees.found
      rw [hq] at hid
      exact ⟨q, by rw [hid]; exact hq', .inl hpair⟩
    | some q =>
      obtain ⟨p, hp, hpair⟩ := h.request hq
      obtain ⟨p', hp', hpair'⟩ := hkeeps _ _ hp
      rw [hq] at hid
      exact ⟨p', by rw [hid]; exact hp', by rw [hpair']; exact hpair⟩
  obtain ⟨q, hq, hpair⟩ := hreq
  -- A row found is one of the two, or an old one whose mirror image is old as well.
  have hcases : ∀ {a b r}, s'.friends.find (a, b) = some r →
      (a, b) = row.pair ∧ r = r₁ ∨ (a, b) = row.pair.swap ∧ r = r₂ ∨
        (a, b) ≠ row.pair ∧ (a, b) ≠ row.pair.swap ∧ s.friends.find (a, b) = some r := by
    intro a b r hr
    by_cases hk : (a, b) = row.pair
    · rw [hk] at hr
      exact .inl ⟨hk, Option.some.inj (hr.symm.trans h₁)⟩
    · by_cases hk' : (a, b) = row.pair.swap
      · rw [hk'] at hr
        exact .inr (.inl ⟨hk', Option.some.inj (hr.symm.trans h₂)⟩)
      · rw [hagrees.friends.other _ hk hk'] at hr
        exact .inr (.inr ⟨hk, hk', hr⟩)
  constructor
  · intro a b r hr
    obtain ⟨hk, -⟩ | ⟨hk, -⟩ | ⟨-, -, hr⟩ := hcases hr
    · cases hk
      exact hagrees.distinct
    · cases hk
      exact hagrees.distinct.symm
    · exact h.distinct hr
  · intro a b r hr
    obtain ⟨hk, rfl⟩ | ⟨hk, rfl⟩ | ⟨hk, hk', hr⟩ := hcases hr
    · cases hk
      exact ⟨r₂, h₂, hfs, hst₂.trans hst₁.symm, hso₂.trans hso₁.symm⟩
    · cases hk
      exact ⟨r₁, h₁, hfs.symm, hst₁.trans hst₂.symm, hso₁.trans hso₂.symm⟩
    · obtain ⟨r', hr', hsame⟩ := h.mirror hr
      refine ⟨r', ?_, hsame⟩
      rw [hagrees.friends.other _ _ _, hr']
      · exact fun he => hk' (congrArg Prod.swap he)
      · exact fun he => hk (congrArg Prod.swap he)
  · intro a b r hr
    obtain ⟨hk, rfl⟩ | ⟨hk, rfl⟩ | ⟨-, -, hr⟩ := hcases hr
    · cases hk
      exact ⟨q, hq, hpair⟩
    · cases hk
      exact ⟨q, by rw [hfs]; exact hq, hpair.symm⟩
    · obtain ⟨p, hp, hpp⟩ := h.request hr
      obtain ⟨p', hp', hpp'⟩ := hkeeps _ _ hp
      exact ⟨p', hp', by rwa [hpp']⟩

/-- Every operation keeps the pairs. -/
theorem Paired.effect {op : FriendOp} (h : Paired s) (heffect : Effect d now s op s') : Paired s' := by
  have hkeeps := heffect.keeps
  cases heffect with
  | refused _ => exact h
  | createFs ht => exact h.of_friends rfl hkeeps
  | updateFs fs _ => exact h.of_friends rfl hkeeps
  | agree hagrees _ => exact hagrees.paired h
  | deleteFriend fsId u =>
    apply h.update (find_deleteFriend fsId u) _ _ _ hkeeps
    · intro r
      split <;> rfl
    · intro r
      split <;> rfl
    · intro r r' hfs hst
      rw [hfs]
      split
      · rfl
      · exact hst
  | updateFriendRemark u v remark =>
    exact h.modify _ (remarked now remark) _ (fun _ => rfl) (fun _ => rfl) fun _ => rfl
  | updateFriendStatus u v status _ => exact h.of_friends rfl hkeeps
  | touchFriends selected =>
    exact h.modify _ (touched now) _ (fun _ => rfl) (fun _ => rfl) fun _ => rfl
  | writeUser user => exact h.of_friends rfl hkeeps

theorem Paired.run (h : Paired s) (ops : List (Int × FriendOp)) : Paired (s.run d ops) := by
  induction ops generalizing s with
  | nil => exact h
  | cons op ops ih => exact ih (h.effect (effect_step d op.1 s op.2))

/-- Rows that name one request are rows of one pair. -/
theorem Paired.same_pair (h : Paired s) {a b : UserId} {r q : FriendRow}
    (hr : s.friends.find (a, b) = some r) (hq : q ∈ s.friends.rows) (hfs : q.fsId = r.fsId) :
    q.pair = (a, b) ∨ q.pair = (b, a) := by
  obtain ⟨p, hp, hpair⟩ := h.request hr
  obtain ⟨p', hp', hpair'⟩ := h.request (a := q.userId) (b := q.friendId)
    ((s.friends.find_eq_some _ q).mpr ⟨hq, rfl⟩)
  rw [hfs, hp] at hp'
  cases hp'
  obtain hpair | hpair := hpair <;> obtain hpair' | hpair' := hpair' <;> rw [hpair] at hpair' <;>
    cases hpair'
  · exact .inl rfl
  · exact .inr rfl
  · exact .inr rfl
  · exact .inl rfl

end FriendTables

/-- After any operations on empty tables: the row of `a` and `b` is there exactly when that of
`b` and `a` is, the two agree in request, status and source, and no row of another pair names
their request. -/
theorem friends_in_pairs (d : Leniency) (ops : List (Int × FriendOp)) (a b : UserId) :
    let s := FriendTables.empty.run d ops
    ((s.friends.find (a, b)).isSome = (s.friends.find (b, a)).isSome) ∧
    ∀ r, s.friends.find (a, b) = some r → a ≠ b ∧
      (∀ r', s.friends.find (b, a) = some r' →
        r'.fsId = r.fsId ∧ r'.status = r.status ∧ r'.source = r.source) ∧
      ∀ q ∈ s.friends.rows, q.fsId = r.fsId → q.pair = (a, b) ∨ q.pair = (b, a) := by
  intro s
  have h : s.Paired := FriendTables.paired_empty.run ops
  refine ⟨?_, ?_⟩
  · rw [Bool.eq_iff_iff, Option.isSome_iff_exists, Option.isSome_iff_exists]
    constructor
    · rintro ⟨r, hr⟩
      obtain ⟨r', hr', -⟩ := h.mirror hr
      exact ⟨r', hr'⟩
    · rintro ⟨r, hr⟩
      obtain ⟨r', hr', -⟩ := h.mirror hr
      exact ⟨r', hr'⟩
  · intro r hr
    refine ⟨h.distinct hr, ?_, ?_⟩
    · intro r' hr'
      obtain ⟨r'', hr'', hsame⟩ := h.mirror hr
      rw [hr'] at hr''
      cases hr''
      exact hsame
    · exact fun q hq hfs => h.same_pair hr hq hfs

namespace FriendTables

variable {s s' : FriendTables} {now : Int}

/-- The row of `a` and `b` is there, with the status. -/
def HasStatus (s : FriendTables) (a b : UserId) (status : FriendshipStatus) : Prop :=
  ∃ r, s.friends.find (a, b) = some r ∧ r.status = status

theorem hasStatus_deleteFriend {a b : UserId} {r : FriendRow} (hr : s.friends.find (a, b) = some r)
    (fsId : String) (u : UserId) (status : FriendshipStatus) :
    (s.deleteFriend now fsId u).2.HasStatus a b status ↔
      if r.fsId = fsId ∧ s.takesPart fsId u = true then status = .deleted else r.status = status := by
  unfold HasStatus
  rw [find_deleteFriend, hr]
  simp only [Option.map_some, Option.some.injEq, exists_eq_left']
  split
  · exact eq_comm
  · exact Iff.rfl

/-- The two users of an accepted request are friends by rows that name the request already
named, and that is the one by which a deletion finds them. -/
theorem Agrees.deleteFriend_iff {fs : AgreeReply} {row : FriendshipRow} (h : Paired s)
    (hagrees : Agrees now fs s row s') {now' : Int} {u : UserId}
    (hu : u = row.userId ∨ u = row.friendId) :
    ((s'.deleteFriend now' fs.fsId u).2.HasStatus row.userId row.friendId .deleted ∧
      (s'.deleteFriend now' fs.fsId u).2.HasStatus row.friendId row.userId .deleted) ↔
      ∀ r, s.friends.find (row.userId, row.friendId) = some r → r.fsId = fs.fsId := by
  obtain ⟨r₁, r₂, h₁, h₂, hfs, hst₁, hst₂, -, -, hid⟩ := hagrees.rows h
  have hold : r₁.fsId = fs.fsId ↔
      ∀ r, s.friends.find (row.userId, row.friendId) = some r → r.fsId = fs.fsId := by
    rw [hid]
    cases s.friends.find (row.userId, row.friendId) with
    | none => simp
    | some q => simp
  have hpart : r₁.fsId = fs.fsId → s'.takesPart fs.fsId u = true := by
    intro he
    rw [takesPart_iff]
    obtain rfl | rfl := hu
    · exact ⟨_, r₁, h₁, he⟩
    · exact ⟨_, r₂, h₂, hfs.trans he⟩
  rw [← hold, hasStatus_deleteFriend h₁, hasStatus_deleteFriend h₂, hfs, hst₁, hst₂]
  by_cases he : r₁.fsId = fs.fsId
  · simp [he, hpart he]
  · simp [he]

end FriendTables

/-- A request was agreed to with both answers: a deletion of it by one of the two ends the
friendship exactly when the pair had no rows before, or rows that name this very request. -/
theorem delete_after_agree_iff (d : Leniency) (ops : List (Int × FriendOp)) (now now' : Int)
    (fs : AgreeReply) (req send : Friend) (u : UserId)
    (hok : ((FriendTables.empty.run d ops).agreeFriendApplyRequest now fs).1 = .ok (req, send))
    (hu : u = req.friendId ∨ u = send.friendId) :
    let s := FriendTables.empty.run d ops
    let s' := ((s.agreeFriendApplyRequest now fs).2.deleteFriend now' fs.fsId u).2
    req.fsId = fs.fsId ∧ send.fsId = fs.fsId ∧
    ((s'.HasStatus req.friendId send.friendId .deleted ∧
        s'.HasStatus send.friendId req.friendId .deleted) ↔
      ∀ r, s.friends.find (req.friendId, send.friendId) = some r → r.fsId = fs.fsId) := by
  intro s s'
  have h : s.Paired := FriendTables.paired_empty.run ops
  obtain ⟨e, he⟩ | ⟨row, s₁, hagrees, he⟩ := FriendTables.agree_cases now fs s
  · rw [he] at hok
    cases hok
  · have hs' : s' = (s₁.deleteFriend now' fs.fsId u).2 := by
      rw [show s' = ((s.agreeFriendApplyRequest now fs).2.deleteFriend now' fs.fsId u).2 from rfl, he]
    rw [he] at hok
    obtain ⟨⟨user, friend⟩, -, hpack⟩ := Remote.eq_ok_of_map hok
    cases hpack
    have hid : row.id = fs.fsId := ((Table.find_eq_some _ _ _).mp hagrees.found).2
    refine ⟨hid, hid, ?_⟩
    rw [hs']
    exact hagrees.deleteFriend_iff h hu

/-- A user with little more than a name. -/
def plainUser (u : UserId) : UserRow := ⟨u, u, u, "", "", 0, none, none, "", false⟩

/-- A request from one user to another, with nothing said. -/
def plainRequest (u v : UserId) : FriendRequest := ⟨⟨u, v⟩, none, none, ""⟩

/-- `a` has asked `b`. -/
def asked : List (Int × FriendOp) :=
  [(1, .writeUser (plainUser "a")), (2, .writeUser (plainUser "b")),
    (3, .createFs "f" (plainRequest "a" "b"))]

/-- They were friends by `f`, and `a` ended it. -/
def parted : List (Int × FriendOp) :=
  asked ++ [(4, .agreeFriendApplyRequest ⟨"f", none, none⟩), (5, .deleteFriend "f" "a")]

/-- After that `b` has asked `a` by `g`. -/
def askedBack : List (Int × FriendOp) := parted ++ [(6, .createFs "g" (plainRequest "b" "a"))]

theorem delete_after_agree_iff_asked : ∃ req send,
    ((FriendTables.empty.run ⟨false, false⟩ asked).agreeFriendApplyRequest 4 ⟨"f", none, none⟩).1 =
      .ok (req, send) ∧
    (((FriendTables.empty.run ⟨false, false⟩ asked).agreeFriendApplyRequest 4
      ⟨"f", none, none⟩).2.deleteFriend 5 "f" "a").2.HasStatus req.friendId send.friendId .deleted := by
  refine ⟨_, _, rfl, ?_⟩
  have h := delete_after_agree_iff ⟨false, false⟩ asked 4 5 ⟨"f", none, none⟩ _ _ "a" rfl (.inl rfl)
  exact (h.2.2.mpr fun r hr => by cases hr).1

/-- Both answers carry `g`, but the rows still name `f`, and a deletion of `g` finds none. -/
theorem not_deleted_after_agree :
    ¬ ∀ (d : Leniency) (ops : List (Int × FriendOp)) (now now' : Int) (fs : AgreeReply)
      (req send : Friend) (u : UserId),
      ((FriendTables.empty.run d ops).agreeFriendApplyRequest now fs).1 = .ok (req, send) →
      u = req.friendId ∨ u = send.friendId →
      (((FriendTables.empty.run d ops).agreeFriendApplyRequest now fs).2.deleteFriend now' fs.fsId
        u).2.HasStatus req.friendId send.friendId .deleted := by
  intro h
  obtain ⟨r, hr, hst⟩ := h ⟨false, false⟩ askedBack 7 8 ⟨"g", none, none⟩ _ _ "a" rfl (.inr rfl)
  revert hst
  cases hr
  decide

end Sandcat
