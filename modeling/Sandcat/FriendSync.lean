import Sandcat.FriendPairs

/-!
# Incremental synchronisation

A client asks for the rows later than its last visit. A row that changed is found if every
change sets `update_time`. The insertion and the deletion of friends do, and so do the
statements on requests, but the upsert that revives a pair and the update of a status do not.
-/

namespace Sandcat

namespace FriendTables

variable {d : Leniency} {s t : FriendTables} {now : Int}

/-- What a client sees of a friend and of a request. -/
def shown (r : FriendRow) : FriendshipStatus × Option String × String := (r.status, r.remark, r.source)

def said (q : FriendshipRow) : FriendshipStatus × Option String := (q.status, q.applyMsg)

/-- What changed between `s` and `t` is in the lists that are asked for with `T`. -/
structure Synced (T : Int) (s t : FriendTables) : Prop where
  friends : ∀ u v r user, t.friends.find (u, v) = some r →
    (s.friends.find (u, v)).map shown ≠ some (shown r) →
    t.users.find v = some user → user.isDelete = false → ∃ f ∈ t.getFriendList u T, f.friendId = v
  requests : ∀ u id q, t.friendships.byAlt.find id = some q → q.friendId = u →
    (s.friendships.byAlt.find id).map said ≠ some (said q) → ∃ f ∈ t.getFsList u T, f.fsId = id

theorem mem_getFriendList {u v : UserId} {T : Int} {r : FriendRow} {user : UserRow}
    (hr : t.friends.find (u, v) = some r) (hT : T < r.updateTime) (huser : t.users.find v = some user)
    (hdel : user.isDelete = false) : ∃ f ∈ t.getFriendList u T, f.friendId = v := by
  obtain ⟨hmem, hk⟩ := (t.friends.find_eq_some _ _).mp hr
  obtain ⟨hmem', hid⟩ := (t.users.find_eq_some _ _).mp huser
  cases hk
  refine ⟨_, List.mem_flatMap.mpr ⟨r, ?_, List.mem_map_of_mem (a := user) ?_⟩, hid⟩
  · simp [hmem, hT]
  · simp [hmem', hid, hdel]

theorem mem_getFsList {id : String} {T : Int} {q : FriendshipRow} {user : UserRow}
    (hq : t.friendships.byAlt.find id = some q) (hT : T < q.updateTime)
    (huser : t.users.find q.userId = some user) : ∃ f ∈ t.getFsList q.friendId T, f.fsId = id := by
  obtain ⟨hmem, hid⟩ := (Table.find_eq_some _ _ _).mp hq
  obtain ⟨hmem', hid'⟩ := (t.users.find_eq_some _ _).mp huser
  refine ⟨_, List.mem_flatMap.mpr ⟨q, ?_, List.mem_map_of_mem (a := user) ?_⟩, hid⟩
  · exact List.mem_filter.mpr ⟨hmem, decide_eq_true ⟨rfl, hT⟩⟩
  · simp [hmem', hid']

/-- A request is made by a user of the service, an agreement that finds rows of the pair changes
nothing that is shown of them, and a status is not updated to another one. -/
def Dated (d : Leniency) (s : FriendTables) : FriendOp → Prop
  | .createFs _ fs => (s.users.find fs.userId).isSome = true
  | .agreeFriendApplyRequest fs => ∀ q, s.friendships.byAlt.find fs.fsId = some q →
      (∀ r, s.friends.find (q.userId, q.friendId) = some r →
        shown r = (.accepted, q.reqRemark, q.source)) ∧
      ∀ r, s.friends.find (q.friendId, q.userId) = some r →
        shown r = (.accepted, fs.respRemark, q.source)
  | .updateFriendStatus u v status => d.textForStatus = true →
      ∀ q ∈ s.friendships.rows, q.pair = (u, v) ∨ q.pair = (v, u) → q.status = status
  | _ => True

/-- A row that the upsert has met: it is new, or it is shown as before. -/
theorem stamped_of_upserted {u u' : Table FriendRow.pair} {k : UserId × UserId} {e r' : FriendRow}
    (hfind : u'.find k = some (((u.find k).map (revived e)).getD e)) (he : e.updateTime = now)
    (hst : e.status = .accepted) (hkept : ∀ r, u.find k = some r → shown r = shown e)
    (hr' : u'.find k = some r') : r'.updateTime = now ∨
      ∃ r, u.find k = some r ∧ shown r = shown r' ∧ r.updateTime = r'.updateTime := by
  rw [hfind] at hr'
  cases hr'
  cases hr : u.find k with
  | none => exact .inl he
  | some r =>
    have hsame : shown (revived e r) = shown e := by
      rw [shown, shown, revived, hst]
    exact .inr ⟨r, rfl, (hkept r hr).trans hsame.symm, rfl⟩

theorem Agrees.stamps {fs : AgreeReply} {row : FriendshipRow} (hagrees : Agrees now fs s row t)
    (hok : s.Dated d (.agreeFriendApplyRequest fs)) :
    Table.Stamps shown FriendRow.updateTime now s.friends t.friends := by
  obtain ⟨hsender, hreceiver⟩ := hok row hagrees.found
  intro k r' hr'
  by_cases hk : k = (row.userId, row.friendId)
  · subst hk
    exact stamped_of_upserted hagrees.friends.sender rfl rfl hsender hr'
  · by_cases hk' : k = (row.friendId, row.userId)
    · subst hk'
      exact stamped_of_upserted hagrees.friends.receiver rfl rfl hreceiver hr'
    · rw [hagrees.friends.other k hk hk'] at hr'
      exact .inr ⟨r', hr', rfl, rfl⟩

/-- Under the condition every change of a friend is stamped. -/
theorem Effect.stamps_friends {op : FriendOp} (h : Effect d now s op t) (hok : s.Dated d op) :
    Table.Stamps shown FriendRow.updateTime now s.friends t.friends := by
  cases h with
  | agree hagrees _ => exact hagrees.stamps hok
  | deleteFriend fsId u =>
    exact Table.stamps_modify (f := unfriended now) (fun _ => rfl) fun _ _ _ => .inl rfl
  | updateFriendRemark u v remark =>
    exact Table.stamps_modify (f := remarked now remark) (fun _ => rfl) fun _ _ _ => .inl rfl
  | touchFriends selected =>
    exact Table.stamps_modify (f := touched now) (fun _ => rfl) fun _ _ _ => .inl rfl
  | _ => exact .refl _

/-- And so is every change of a request. -/
theorem Effect.stamps_friendships {op : FriendOp} (h : Effect d now s op t) (hok : s.Dated d op) :
    Table.Stamps said FriendshipRow.updateTime now s.friendships.byAlt t.friendships.byAlt := by
  have hmodify : ∀ (p : FriendshipRow → Bool) (f : FriendshipRow → FriendshipRow)
      (hid : ∀ r, (f r).id = r.id), (∀ r, (f r).updateTime = now) →
      Table.Stamps said FriendshipRow.updateTime now s.friendships.byAlt
        (s.friendships.byAlt.modify p f hid) :=
    fun p f hid hnow => Table.stamps_modify hid fun r _ _ => .inl (hnow r)
  cases h with
  | createFs ht => exact UniqueTable.stamps_upsert ht rfl fun _ => rfl
  | updateFs fs _ => exact hmodify _ (amended now fs) (fun _ => rfl) fun _ => rfl
  | agree hagrees _ =>
    rw [hagrees.friendships]
    exact hmodify _ (agreed now _) (fun _ => rfl) fun _ => rfl
  | deleteFriend fsId u => exact hmodify _ (withdrawn now) (fun _ => rfl) fun _ => rfl
  | updateFriendStatus u v status hd =>
    apply Table.stamps_modify (t := s.friendships.byAlt) (f := restated status) fun _ => rfl
    intro q hq hp
    refine .inr ⟨?_, rfl⟩
    rw [said, said, restated, hok hd q hq (of_decide_eq_true hp)]
  | _ => exact .refl _

/-- A user of the service remains one. -/
theorem Effect.users {op : FriendOp} (h : Effect d now s op t) {u : UserId}
    (hu : (s.users.find u).isSome = true) : (t.users.find u).isSome = true := by
  cases h with
  | agree _ hsame => rwa [hsame]
  | writeUser user =>
    refine (congrArg Option.isSome (s.users.find_upsert user (overwritten user) (fun _ => rfl) u)).trans ?_
    split
    · rfl
    · exact hu
  | _ => exact hu

/-- Every request was made by a user of the service. -/
def Registered (s : FriendTables) : Prop :=
  ∀ id q, s.friendships.byAlt.find id = some q → (s.users.find q.userId).isSome = true

theorem Effect.registered {op : FriendOp} (h : Effect d now s op t) (hok : s.Dated d op)
    (hs : s.Registered) : t.Registered := by
  intro id q hq
  obtain ⟨p, hp, hpair, -⟩ | ⟨fsId, fs, rfl, hpair, -⟩ := h.origin hq
  · rw [← show p.userId = q.userId from congrArg Prod.fst hpair]
    exact h.users (hs id p hp)
  · rw [show q.userId = fs.userId from congrArg Prod.fst hpair]
    exact h.users hok

/-- What a run under the condition keeps: since `T`, every change has left its stamp. -/
structure Stamped (T : Int) (s t : FriendTables) : Prop where
  friends : Table.Since shown FriendRow.updateTime T s.friends t.friends
  friendships : Table.Since said FriendshipRow.updateTime T s.friendships.byAlt t.friendships.byAlt
  registered : t.Registered

theorem Stamped.effect {T : Int} {t' : FriendTables} {op : FriendOp} (h : Stamped T s t)
    (hT : T < now) (hok : t.Dated d op) (heffect : Effect d now t op t') : Stamped T s t' where
  friends := h.friends.step hT (heffect.stamps_friends hok)
  friendships := h.friendships.step hT (heffect.stamps_friendships hok)
  registered := heffect.registered hok h.registered

theorem Stamped.synced {T : Int} (h : Stamped T s t) : Synced T s t := by
  constructor
  · intro u v r user hr hchanged huser hdel
    obtain hT | hsame := h.friends (u, v) r hr
    · exact mem_getFriendList hr hT huser hdel
    · exact absurd hsame hchanged
  · rintro u id q hq rfl hchanged
    obtain hT | hsame := h.friendships id q hq
    · obtain ⟨user, huser⟩ := Option.isSome_iff_exists.mp (h.registered id q hq)
      exact mem_getFsList hq hT huser
    · exact absurd hsame hchanged

end FriendTables

/-- In a run whose operations all meet the condition, whatever the instant `T` at which a client
was last there, what has changed since is in the lists that it asks for. -/
theorem sync_misses_nothing (d : Leniency) (T : Int) (before after : List (Int × FriendOp))
    (hafter : ∀ p ∈ after, T < p.1)
    (hmeets : FriendTables.empty.Meets d (fun _ s op => s.Dated d op) (before ++ after)) :
    FriendTables.Synced T (FriendTables.empty.run d before)
      (FriendTables.empty.run d (before ++ after)) := by
  obtain ⟨hbefore, hmeets⟩ := FriendTables.meets_append.mp hmeets
  have hreg : (FriendTables.empty.run d before).Registered := by
    apply hbefore.run
    · exact fun p _ t ht hok => (FriendTables.effect_step d p.1 t p.2).registered hok ht
    · intro id q hq
      cases hq
  rw [FriendTables.run_append]
  apply FriendTables.Stamped.synced
  apply hmeets.run
  · exact fun p hp t ht hok => ht.effect (hafter p hp) hok (FriendTables.effect_step d p.1 t p.2)
  · exact ⟨.refl _, .refl _, hreg⟩

theorem sync_misses_nothing_asked : ∃ f ∈ (FriendTables.empty.run ⟨false, false⟩
    (asked ++ [(4, .agreeFriendApplyRequest ⟨"f", none, none⟩)])).getFriendList "a" 3,
      f.friendId = "b" := by
  have h := sync_misses_nothing ⟨false, false⟩ 3 asked
    [(4, .agreeFriendApplyRequest ⟨"f", none, none⟩)] (by decide) (by
      refine ⟨trivial, trivial, rfl, ?_, trivial⟩
      intro q hq
      cases hq
      constructor
      · intro r hr
        cases hr
      · intro r hr
        cases hr)
  exact h.friends "a" "b" _ _ rfl (by decide) rfl rfl

/-- `a` and `b` part, `a` asks again and `b` agrees again: the rows are revived with the time of
their deletion, and a client that was there at that time is not told. -/
theorem revival_missed :
    ¬ ∀ (d : Leniency) (T : Int) (before after : List (Int × FriendOp)),
      ((before ++ after).map Prod.fst).Pairwise (· < ·) → (∀ p ∈ before, p.1 ≤ T) →
      (∀ p ∈ after, T < p.1) →
      FriendTables.Synced T (FriendTables.empty.run d before)
        (FriendTables.empty.run d (before ++ after)) := by
  intro h
  have hsynced := h ⟨false, false⟩ 5 parted
    [(6, .createFs "g" (plainRequest "a" "b")), (7, .agreeFriendApplyRequest ⟨"f", none, none⟩)]
    (by decide) (by decide) (by decide)
  obtain ⟨f, hf, -⟩ := hsynced.friends "a" "b" _ _ rfl (by decide) rfl rfl
  have hnone : (FriendTables.empty.run ⟨false, false⟩ (parted ++
    [(6, .createFs "g" (plainRequest "a" "b")),
      (7, .agreeFriendApplyRequest ⟨"f", none, none⟩)])).getFriendList "a" 5 = [] := rfl
  rw [hnone] at hf
  cases hf

end Sandcat
