import Sandcat.Footprint
import Sandcat.GroupApi

/-!
# The owner of a group

A group names its owner in `groups`, and one of its member rows has the role `Owner`.
The operations on members, roles and settings are run one after the other, each of them
with any outcome, and what they do to the two is compared.
-/

namespace Sandcat

open Remote

/-- `SET role`. -/
def GroupMemberRow.withRole (role : GroupRole) (r : GroupMemberRow) : GroupMemberRow := { r with role }

namespace Postgres

variable {pg : Postgres} {g : GroupId}

def ownerOf (pg : Postgres) (g : GroupId) : Option UserId := (pg.groups.find g).map (·.owner)

/-- The users whose member rows have the role `Owner`. -/
def ownerRows (pg : Postgres) (g : GroupId) : List UserId :=
  (pg.groupMembers.rows.filter fun r => decide (r.groupId = g) && decide (r.role = .owner)).map
    (·.userId)

/-- One owner row, and it is that of the owner in `groups`. -/
def OneOwner (g : GroupId) (pg : Postgres) : Prop := ∃ o, pg.ownerOf g = some o ∧ pg.ownerRows g = [o]

theorem roleOf_eq_some {u : UserId} {role : GroupRole} :
    pg.roleOf g u = some role ↔ ∃ isMuted, ⟨g, u, role, isMuted⟩ ∈ pg.groupMembers.rows := by
  rw [roleOf, Option.map_eq_some_iff]
  constructor
  · rintro ⟨r, hr, rfl⟩
    obtain ⟨hmem, hkey⟩ := (Table.find_eq_some _ _ _).mp hr
    cases hkey
    exact ⟨_, hmem⟩
  · rintro ⟨isMuted, h⟩
    exact ⟨_, (Table.find_eq_some _ _ _).mpr ⟨h, rfl⟩, rfl⟩

theorem mem_ownerRows {u : UserId} : u ∈ pg.ownerRows g ↔ pg.roleOf g u = some .owner := by
  simp only [ownerRows, List.mem_map, List.mem_filter, Bool.and_eq_true, decide_eq_true_eq,
    roleOf_eq_some]
  constructor
  · rintro ⟨⟨g', u', role, isMuted⟩, ⟨hr, rfl, rfl⟩, rfl⟩
    exact ⟨isMuted, hr⟩
  · rintro ⟨isMuted, h⟩
    exact ⟨_, ⟨h, rfl, rfl⟩, rfl⟩

theorem nodup_ownerRows (pg : Postgres) (g : GroupId) : (pg.ownerRows g).Nodup := by
  apply List.Nodup.sublist _ (pg.nodup_membersOf g)
  apply List.Sublist.map
  apply List.monotone_filter_right
  intro r hr
  exact (Bool.and_eq_true_iff.mp hr).1

theorem ownerRows_eq_singleton {o : UserId} :
    pg.ownerRows g = [o] ↔ ∀ u, pg.roleOf g u = some .owner ↔ u = o := by
  simp only [← mem_ownerRows]
  constructor
  · intro h u
    rw [h, List.mem_singleton]
  · intro h
    apply List.perm_singleton.mp
    rw [List.perm_ext_iff_of_nodup (pg.nodup_ownerRows g) (List.nodup_singleton o)]
    intro u
    rw [h, List.mem_singleton]

/-- Among databases with the same owner in `groups`, who has the role decides. -/
theorem OneOwner.iff_of_ownerOf {pg' : Postgres} {o : UserId} (ho : pg.ownerOf g = some o)
    (hsame : pg'.ownerOf g = pg.ownerOf g) :
    OneOwner g pg' ↔ ∀ u, pg'.roleOf g u = some .owner ↔ u = o := by
  rw [← ownerRows_eq_singleton]
  constructor
  · rintro ⟨o', ho', hrows⟩
    rw [hsame, ho] at ho'
    cases ho'
    exact hrows
  · intro hrows
    exact ⟨o, hsame.trans ho, hrows⟩

/-- Roles that nobody gains or loses. -/
theorem OneOwner.iff_of_roles {pg' : Postgres} (hsame : pg'.ownerOf g = pg.ownerOf g)
    (hroles : ∀ u, pg'.roleOf g u = some .owner ↔ pg.roleOf g u = some .owner) :
    OneOwner g pg' ↔ OneOwner g pg := by
  unfold OneOwner
  rw [hsame]
  simp only [ownerRows_eq_singleton, hroles]

theorem roleOf_insertMembers (g' : GroupId) (members : List UserId) (u : UserId) :
    (pg.insertMembers g' members).roleOf g u = some .owner ↔ pg.roleOf g u = some .owner := by
  unfold roleOf insertMembers
  dsimp only
  generalize pg.users.rows.filter (· ∈ members) = new
  generalize pg.groupMembers = t
  induction new generalizing t with
  | nil => rfl
  | cons v new ih =>
    rw [List.foldl_cons, ih, Table.find_insertNew]
    cases t.find (g, u) with
    | some r => rfl
    | none =>
      rw [Option.none_or]
      split <;> simp

/-- Deletions that go by the key. -/
theorem roleOf_delete (p : GroupId × UserId → Bool) {u : UserId} {role : GroupRole} :
    ({ pg with groupMembers := pg.groupMembers.delete fun r => p r.key } : Postgres).roleOf g u =
      some role ↔ pg.roleOf g u = some role ∧ p (g, u) = false := by
  simp only [roleOf_eq_some, Table.mem_delete, GroupMemberRow.key, exists_and_right]

/-- Deletions of member rows keep one owner exactly when they spare the owner's row. -/
theorem OneOwner.delete_iff {o : UserId} (ho : pg.ownerOf g = some o) (h : OneOwner g pg)
    (p : GroupId × UserId → Bool) :
    OneOwner g { pg with groupMembers := pg.groupMembers.delete fun r => p r.key } ↔
      p (g, o) = false := by
  have hrole := (OneOwner.iff_of_ownerOf ho rfl).mp h
  have hsame : ({ pg with groupMembers := pg.groupMembers.delete fun r => p r.key } : Postgres).ownerOf g =
      pg.ownerOf g := rfl
  rw [OneOwner.iff_of_ownerOf ho hsame]
  simp only [roleOf_delete, hrole]
  constructor
  · intro hall
    exact ((hall o).mpr rfl).2
  · intro hp u
    constructor
    · exact fun hu => hu.1
    · rintro rfl
      exact ⟨rfl, hp⟩

theorem roleOf_modify (p : GroupMemberRow → Bool) (f : GroupMemberRow → GroupMemberRow)
    (hf : ∀ r, (f r).key = r.key) (u : UserId) :
    ({ pg with groupMembers := pg.groupMembers.modify p f hf } : Postgres).roleOf g u =
      (pg.groupMembers.find (g, u)).map fun r => (if p r then f r else r).role := by
  rw [roleOf, Table.find_modify, Option.map_map]
  rfl

/-- The flag has nothing to do with the role. -/
theorem roleOf_setMuted (g' : GroupId) (v : UserId) (isMuted : Bool) (u : UserId) :
    (pg.setMuted g' v isMuted).roleOf g u = pg.roleOf g u := by
  refine (roleOf_modify _ (GroupMemberRow.withMuted isMuted) (fun _ => rfl) u).trans ?_
  apply Option.map_congr
  intro r _
  split <;> rfl

/-- `change_member_role` has written the role. -/
def RoleGiven (g : GroupId) (target : UserId) (role : GroupRole) (pg pg' : Postgres) : Prop :=
  pg'.groups = pg.groups ∧ ∀ h u, pg'.roleOf h u =
    if h = g ∧ u = target then some role else pg.roleOf h u

/-- `UPDATE group_members SET role`. -/
def setRole (g : GroupId) (u : UserId) (role : GroupRole) (pg : Postgres) : Postgres :=
  let groupMembers := pg.groupMembers.modify (fun q => decide (q.key = (g, u)))
    (GroupMemberRow.withRole role) fun _ => rfl
  { pg with groupMembers }

theorem roleGiven_setRole {target : UserId} (role : GroupRole) (hmem : target ∈ pg.membersOf g) :
    RoleGiven g target role pg (pg.setRole g target role) := by
  obtain ⟨row, hrow, hkey⟩ := (mem_membersOf _ _ _).mp hmem
  have hf := (Table.find_eq_some _ _ _).mpr ⟨hrow, hkey⟩
  refine ⟨rfl, ?_⟩
  intro h u
  refine (roleOf_modify _ _ _ u).trans ?_
  by_cases hk : h = g ∧ u = target
  · obtain ⟨rfl, rfl⟩ := hk
    simp [hf, hkey, GroupMemberRow.withRole]
  · rw [if_neg hk, roleOf]
    apply Option.map_congr
    intro q hq
    have hqkey := ((Table.find_eq_some _ _ _).mp hq).2
    rw [if_neg]
    simp only [decide_eq_true_eq, hqkey, Prod.mk.injEq]
    exact hk

/-- The operator may give the role. -/
def MayGiveRole (pg : Postgres) (g : GroupId) (operator : UserId) (newRole : String) : Prop :=
  pg.roleOf g operator = some .owner ∨ pg.roleOf g operator = some .admin ∧ newRole ≠ "Owner"

theorem mayGiveRole_iff {operator : UserId} {newRole : String} :
    pg.MayGiveRole g operator newRole ↔ ∃ role, pg.roleOf g operator = some role ∧
      (role.text != "Owner" && (role.text != "Admin" || newRole == "Owner")) = false := by
  unfold MayGiveRole
  cases hrole : pg.roleOf g operator with
  | none => simp
  | some role => cases role <;> simp [GroupRole.text]

/-- `change_member_role` is refused, or the operator may give the role to the member and
it is written. -/
theorem changeMemberRole_cases (g : GroupId) (operator target : UserId) (newRole : String)
    (pg : Postgres) :
    ((∃ e, pg.changeMemberRole g operator target newRole = .error e) ∧
      ¬ (pg.MayGiveRole g operator newRole ∧ (GroupRole.ofText newRole).isSome ∧
        target ∈ pg.membersOf g)) ∨
    ∃ role, pg.changeMemberRole g operator target newRole = .ok ((), pg.setRole g target role) ∧
      pg.MayGiveRole g operator newRole ∧ GroupRole.ofText newRole = some role ∧
      target ∈ pg.membersOf g := by
  unfold changeMemberRole
  rw [mayGiveRole_iff]
  cases hop : pg.roleOf g operator with
  | none => exact .inl ⟨⟨_, rfl⟩, by simp⟩
  | some role =>
    dsimp only
    split
    · rename_i hno
      refine .inl ⟨⟨_, rfl⟩, ?_⟩
      rintro ⟨⟨role', hrole, hmay⟩, -⟩
      cases hrole
      rw [hno] at hmay
      cases hmay
    · rename_i hmay
      have hmay : (role.text != "Owner" && (role.text != "Admin" || newRole == "Owner")) = false := by
        simpa using hmay
      split
      · rename_i r row hr hf
        obtain ⟨hrow, hkey⟩ := (Table.find_eq_some _ _ _).mp hf
        exact .inr ⟨r, rfl, ⟨role, rfl, hmay⟩, hr, (mem_membersOf _ _ _).mpr ⟨row, hrow, hkey⟩⟩
      · rename_i hr
        exact .inl ⟨⟨_, rfl⟩, by simp [hr]⟩
      · rename_i hf _
        refine .inl ⟨⟨_, rfl⟩, ?_⟩
        rintro ⟨-, -, hmem⟩
        obtain ⟨row, hrow, hkey⟩ := (mem_membersOf _ _ _).mp hmem
        exact (Table.find_eq_none _ _).mp hf row hrow hkey

/-- The role keeps one owner exactly when the owner is given it and it is `Owner`, or neither. -/
theorem OneOwner.given_iff {pg' : Postgres} {o target : UserId} {role : GroupRole}
    (ho : pg.ownerOf g = some o) (h : OneOwner g pg) (hgiven : RoleGiven g target role pg pg') :
    OneOwner g pg' ↔ (target = o ↔ role = .owner) := by
  have hrole := (OneOwner.iff_of_ownerOf ho rfl).mp h
  have hsame : pg'.ownerOf g = pg.ownerOf g := by
    unfold ownerOf
    rw [hgiven.1]
  rw [OneOwner.iff_of_ownerOf ho hsame]
  simp only [hgiven.2, true_and]
  constructor
  · intro hall
    have := hall target
    rw [if_pos rfl, Option.some.injEq] at this
    exact this.symm
  · intro hiff u
    by_cases hu : u = target
    · subst hu
      rw [if_pos rfl, Option.some.injEq]
      exact hiff.symm
    · rw [if_neg hu]
      exact hrole u

theorem ofText_eq_owner {s : String} {role : GroupRole} (h : GroupRole.ofText s = some role) :
    role = .owner ↔ s = "Owner" := by
  unfold GroupRole.ofText at h
  split at h
  · rename_i hs
    cases h
    simp [hs]
  · rename_i hs
    split at h
    · cases h
      simp [hs]
    · split at h
      · cases h
        simp [hs]
      · cases h

end Postgres

/-- The operations on members, roles and settings. -/
inductive GroupOp where
  | inviteNewMembers (group : GroupInviteNew)
  | removeMember (groupId : GroupId) (userId : UserId) (memIds : List UserId)
  | exitGroup (userId : UserId) (groupId : GroupId)
  | changeMemberRole (groupId : GroupId) (userId targetId : UserId) (newRole : String)
  | muteGroupMember (groupId : GroupId) (userId operatorId : UserId)
  | unmuteGroupMember (groupId : GroupId) (userId operatorId : UserId)
  | updateGroup (groupId : GroupId)
  | updateGroupSettings (groupId : GroupId) (invitePermission : Int)

namespace GroupOp

variable {castRole : Int → Option GroupRole}

def prog (castRole : Int → Option GroupRole) : GroupOp → M Unit
  | .inviteNewMembers group => Db.inviteNewMembers group
  | .removeMember g u memIds => Db.removeMember g u memIds
  | .exitGroup u g => Db.exitGroup u g
  | .changeMemberRole g u target newRole => Db.changeMemberRole g u target newRole
  | .muteGroupMember g u operator => Db.muteGroupMember g u operator
  | .unmuteGroupMember g u operator => Db.unmuteGroupMember g u operator
  | .updateGroup g => Prog.void (Db.updateGroup g)
  | .updateGroupSettings g permission => Prog.void (Db.updateGroupSettings castRole g permission)

/-- What an operation that is not refused writes. -/
def Writes (castRole : Int → Option GroupRole) (pg : Postgres) (op : GroupOp) (pg' : Postgres) : Prop :=
  match op with
  | .inviteNewMembers group => pg' = pg.insertMembers group.groupId group.members
  | .removeMember g u memIds => pg' = pg.removeMember g u memIds
  | .exitGroup u g => pg.roleOf g u ≠ some .owner ∧ pg' = pg.deleteMember u g
  | .changeMemberRole g u target newRole => pg.changeMemberRole g u target newRole = .ok ((), pg')
  | .muteGroupMember g u _ => pg' = pg.setMuted g u true
  | .unmuteGroupMember g u _ => pg' = pg.setMuted g u false
  | .updateGroup _ => pg' = pg
  | .updateGroupSettings g permission =>
    ∃ row, pg.updateGroupSettings castRole g permission = .ok (row, pg')

end GroupOp

/-- A statement that only reads comes back, and the program goes on where it was. -/
theorem faulty_read_bind {α β : Type} {g : Postgres → Except Error (α × Postgres)} {k : α → M β}
    (hg : ∀ pg a pg', g pg = .ok (a, pg') → pg' = pg) {w t : World} {r : Except Error β}
    (h : Prog.Faulty (pgCall g >>= k) w r t) :
    t = w ∨ ∃ a, g w.pg = .ok (a, w.pg) ∧ Prog.Faulty (k a) w r t := by
  obtain ⟨a, u, hcall, hrest⟩ | ⟨e, hcall, -⟩ := Prog.faulty_bind h
  · have ha := Prog.faulty_request_ok hcall
    obtain ⟨⟨a', pg'⟩, hpg, he⟩ := eq_ok_of_map ha
    cases he
    obtain rfl := hg _ _ _ hpg
    exact .inr ⟨_, hpg, hrest⟩
  · obtain ⟨rfl, -⟩ | ⟨a, ha, -⟩ := Prog.faulty_request hcall
    · exact .inl rfl
    · obtain ⟨⟨a', pg'⟩, hpg, he⟩ := eq_ok_of_map ha
      cases he
      obtain rfl := hg _ _ _ hpg
      exact .inl rfl

/-- A statement that writes. -/
theorem faulty_write {α : Type} {g : Postgres → Except Error (α × Postgres)} {w t : World}
    {r : Except Error α} (h : Prog.Faulty (pgCall g) w r t) :
    t.pg = w.pg ∨ ∃ a, g w.pg = .ok (a, t.pg) := by
  obtain ⟨rfl, -⟩ | ⟨a, ha, -⟩ := Prog.faulty_request h
  · exact .inl rfl
  · obtain ⟨⟨a', pg'⟩, hpg, he⟩ := eq_ok_of_map ha
    cases he
    exact .inr ⟨_, hpg⟩

/-- A statement whose answer is not looked at. -/
theorem faulty_void_write {α : Type} {g : Postgres → Except Error (α × Postgres)} {w t : World}
    {r : Except Error Unit} (h : Prog.Faulty (Prog.void (pgCall g)) w r t) :
    t.pg = w.pg ∨ ∃ a, g w.pg = .ok (a, t.pg) := by
  obtain ⟨a, u, hcall, hret⟩ | ⟨e, hcall, -⟩ := Prog.faulty_bind h
  · cases hret
    exact faulty_write hcall
  · exact faulty_write hcall

namespace GroupOp

variable {castRole : Int → Option GroupRole} {w t : World} {r : Except Error Unit}

theorem eq_of_query {α : Type} {q : Postgres → α} (pg : Postgres) (a : α) (pg' : Postgres)
    (h : Except.ok (ε := Error) (q pg, pg) = .ok (a, pg')) : pg' = pg := by
  cases h
  rfl

theorem eq_of_fetchRole {g : GroupId} {u : UserId} (pg : Postgres) (role : GroupRole)
    (pg' : Postgres) (h : pg.fetchRole g u = .ok (role, pg')) : pg' = pg := by
  unfold Postgres.fetchRole at h
  split at h
  · cases h
  · cases h
    rfl

theorem eq_of_updateGroup {g : GroupId} (pg : Postgres) (row : GroupRow) (pg' : Postgres)
    (h : pg.updateGroup g = .ok (row, pg')) : pg' = pg := by
  unfold Postgres.updateGroup at h
  split at h
  · cases h
  · cases h
    rfl

/-- A write that the database does not refuse. -/
theorem faulty_set {f : Postgres → Postgres}
    (h : Prog.Faulty (pgCall fun pg => .ok ((), f pg)) w r t) : t.pg = w.pg ∨ t.pg = f w.pg := by
  obtain hsame | ⟨a, ha⟩ := faulty_write h
  · exact .inl hsame
  · exact .inr (congrArg Prod.snd (Except.ok.inj ha)).symm

theorem faulty_setMuted {g : GroupId} {u : UserId} {isMuted : Bool}
    (h : Prog.Faulty (Db.writeMuteRecord >>= fun _ =>
      pgCall fun pg => .ok ((), pg.setMuted g u isMuted)) w r t) :
    t.pg = w.pg ∨ t.pg = w.pg.setMuted g u isMuted := by
  obtain rfl | ⟨_, -, h⟩ := faulty_read_bind eq_of_query h
  · exact .inl rfl
  · exact faulty_set h

/-- Every operation leaves the database alone or writes once, whatever calls are lost. -/
theorem faulty_prog {op : GroupOp} (h : Prog.Faulty (op.prog castRole) w r t) :
    t.pg = w.pg ∨ op.Writes castRole w.pg t.pg := by
  cases op with
  | inviteNewMembers group =>
    obtain rfl | ⟨may, -, h⟩ := faulty_read_bind eq_of_query h
    · exact .inl rfl
    · split at h
      · cases h
        exact .inl rfl
      · exact faulty_set h
  | removeMember g u memIds => exact faulty_set h
  | exitGroup u g =>
    obtain rfl | ⟨isOwner, howner, h⟩ := faulty_read_bind eq_of_query h
    · exact .inl rfl
    · have howner : decide (w.pg.roleOf g u = some .owner) = isOwner :=
        congrArg Prod.fst (Except.ok.inj howner)
      split at h
      · cases h
        exact .inl rfl
      · rename_i hno
        refine (faulty_set h).imp id fun hset => ⟨?_, hset⟩
        simpa [← howner] using hno
  | changeMemberRole g u target newRole =>
    obtain hsame | ⟨a, ha⟩ := faulty_write h
    · exact .inl hsame
    · exact .inr ha
  | muteGroupMember g u operator =>
    obtain rfl | ⟨may, -, h⟩ := faulty_read_bind eq_of_query h
    · exact .inl rfl
    · split at h
      · cases h
        exact .inl rfl
      · obtain rfl | ⟨target, -, h⟩ := faulty_read_bind eq_of_fetchRole h
        · exact .inl rfl
        · obtain rfl | ⟨role, -, h⟩ := faulty_read_bind eq_of_fetchRole h
          · exact .inl rfl
          · split at h
            · cases h
              exact .inl rfl
            · exact faulty_setMuted h
  | unmuteGroupMember g u operator =>
    obtain rfl | ⟨may, -, h⟩ := faulty_read_bind eq_of_query h
    · exact .inl rfl
    · split at h
      · cases h
        exact .inl rfl
      · exact faulty_setMuted h
  | updateGroup g =>
    obtain hsame | ⟨row, hrow⟩ := faulty_void_write h
    · exact .inl hsame
    · exact .inl (eq_of_updateGroup _ _ _ hrow)
  | updateGroupSettings g permission => exact faulty_void_write h

/-- The operations that can end the ownership are a removal by an administrator or the owner,
and a change of roles that is permitted: the first must spare the owner, the second must
give the role `Owner` to the owner and to nobody else. -/
def KeepsOwner (g : GroupId) (pg : Postgres) : GroupOp → Prop
  | .removeMember g' u memIds => g' = g → pg.isAdminOrOwner g u = true →
      ∀ o, pg.ownerOf g = some o → o ∉ memIds
  | .changeMemberRole g' u target newRole => g' = g → pg.MayGiveRole g u newRole →
      (GroupRole.ofText newRole).isSome = true → target ∈ pg.membersOf g →
      ∀ o, pg.ownerOf g = some o → (target = o ↔ newRole = "Owner")
  | _ => True

variable {g : GroupId} {pg pg' : Postgres}

theorem oneOwner_removeMember_iff (h : pg.OneOwner g) (g' : GroupId) (u : UserId)
    (memIds : List UserId) : (pg.removeMember g' u memIds).OneOwner g ↔
      KeepsOwner g pg (.removeMember g' u memIds) := by
  obtain ⟨o, ho, -⟩ := id h
  simp only [KeepsOwner, ho, Option.some.injEq, forall_eq']
  unfold Postgres.removeMember
  by_cases hop : pg.isAdminOrOwner g' u = true
  · rw [if_pos hop]
    refine (Postgres.OneOwner.delete_iff ho h fun k => decide (k.2 ∈ memIds) && decide (k.1 = g')).trans ?_
    simp only [Bool.and_eq_false_imp, decide_eq_true_eq, decide_eq_false_iff_not]
    constructor
    · intro hspared hg _ hmem
      exact hspared hmem hg.symm
    · intro hspared hmem hg
      exact hspared hg.symm (hg ▸ hop) hmem
  · rw [if_neg hop]
    simp only [h, true_iff]
    intro hg hop'
    exact absurd (hg ▸ hop') hop

/-- The owner is turned away, so an exit spares its row. -/
theorem oneOwner_deleteMember (h : pg.OneOwner g) {g' : GroupId} {u : UserId}
    (hu : pg.roleOf g' u ≠ some .owner) : (pg.deleteMember u g').OneOwner g := by
  obtain ⟨o, ho, hrows⟩ := id h
  apply (Postgres.OneOwner.delete_iff ho h fun k => decide (k.2 = u) && decide (k.1 = g')).mpr
  simp only [Bool.and_eq_false_imp, decide_eq_true_eq, decide_eq_false_iff_not]
  rintro rfl rfl
  exact hu ((Postgres.ownerRows_eq_singleton.mp hrows o).mpr rfl)

theorem oneOwner_changeMemberRole_iff (h : pg.OneOwner g) {g' : GroupId} {u target : UserId}
    {newRole : String} (hok : pg.changeMemberRole g' u target newRole = .ok ((), pg')) :
    pg'.OneOwner g ↔ KeepsOwner g pg (.changeMemberRole g' u target newRole) := by
  obtain ⟨o, ho, -⟩ := id h
  simp only [KeepsOwner, ho, Option.some.injEq, forall_eq']
  obtain ⟨⟨e, he⟩, -⟩ | ⟨role, hpg, hmay, hrole, hmem⟩ :=
    pg.changeMemberRole_cases g' u target newRole
  · rw [he] at hok
    cases hok
  · rw [hpg] at hok
    cases hok
    have hgiven := Postgres.roleGiven_setRole role hmem
    by_cases hg : g' = g
    · subst hg
      simp only [Postgres.OneOwner.given_iff ho h hgiven, Postgres.ofText_eq_owner hrole, hmay, hmem,
        hrole, Option.isSome_some, forall_const]
    · simp only [hg, false_imp_iff, iff_true]
      rw [Postgres.OneOwner.iff_of_roles]
      · exact h
      · unfold Postgres.ownerOf
        rw [hgiven.1]
      · intro v
        rw [hgiven.2, if_neg fun hk => hg hk.1.symm]

theorem oneOwner_updateGroupSettings (h : pg.OneOwner g) {g' : GroupId} {permission : Int}
    {row : GroupRow} (hok : pg.updateGroupSettings castRole g' permission = .ok (row, pg')) :
    pg'.OneOwner g := by
  unfold Postgres.updateGroupSettings at hok
  split at hok
  · cases hok
    rw [Postgres.OneOwner.iff_of_roles]
    · exact h
    · unfold Postgres.ownerOf
      rw [Table.find_modify, Option.map_map]
      apply Option.map_congr
      intro r _
      dsimp only [Function.comp]
      split <;> rfl
    · exact fun u => Iff.rfl
  · cases hok
  · cases hok

theorem oneOwner_setMuted (h : pg.OneOwner g) (g' : GroupId) (u : UserId) (isMuted : Bool) :
    (pg.setMuted g' u isMuted).OneOwner g := by
  rw [Postgres.OneOwner.iff_of_roles]
  · exact h
  · rfl
  · exact fun v => by rw [Postgres.roleOf_setMuted]

/-- A write that meets the condition keeps one owner. -/
theorem oneOwner_writes {op : GroupOp} (h : pg.OneOwner g) (hkeeps : KeepsOwner g pg op)
    (hw : op.Writes castRole pg pg') : pg'.OneOwner g := by
  cases op with
  | inviteNewMembers group =>
    obtain rfl := hw
    rw [Postgres.OneOwner.iff_of_roles]
    · exact h
    · rfl
    · exact fun u => Postgres.roleOf_insertMembers _ _ u
  | removeMember g' u memIds =>
    obtain rfl := hw
    exact (oneOwner_removeMember_iff h g' u memIds).mpr hkeeps
  | exitGroup u g' =>
    obtain ⟨hu, rfl⟩ := hw
    exact oneOwner_deleteMember h hu
  | changeMemberRole g' u target newRole => exact (oneOwner_changeMemberRole_iff h hw).mpr hkeeps
  | muteGroupMember g' u operator =>
    obtain rfl := hw
    exact oneOwner_setMuted h g' u _
  | unmuteGroupMember g' u operator =>
    obtain rfl := hw
    exact oneOwner_setMuted h g' u _
  | updateGroup g' =>
    obtain rfl := hw
    exact h
  | updateGroupSettings g' permission =>
    obtain ⟨row, hrow⟩ := hw
    exact oneOwner_updateGroupSettings h hrow

theorem oneOwner_faulty {op : GroupOp} (h : w.pg.OneOwner g) (hkeeps : KeepsOwner g w.pg op)
    (hf : Prog.Faulty (op.prog castRole) w r t) : t.pg.OneOwner g := by
  obtain hsame | hw := faulty_prog hf
  · rwa [hsame]
  · exact oneOwner_writes h hkeeps hw

/-- Run alone, an operation keeps one owner exactly under the condition. -/
theorem oneOwner_after_iff {op : GroupOp} (h : w.pg.OneOwner g) :
    ((op.prog castRole).after w).pg.OneOwner g ↔ KeepsOwner g w.pg op := by
  constructor
  · intro hafter
    cases op with
    | removeMember g' u memIds => exact (oneOwner_removeMember_iff h g' u memIds).mp hafter
    | changeMemberRole g' u target newRole =>
      obtain ⟨⟨e, he⟩, hno⟩ | ⟨role, hpg, -⟩ := w.pg.changeMemberRole_cases g' u target newRole
      · intro hg hmay hrole hmem
        subst hg
        exact absurd ⟨hmay, hrole, hmem⟩ hno
      · apply (oneOwner_changeMemberRole_iff h hpg).mp
        have hafter' : ((prog castRole (.changeMemberRole g' u target newRole)).after w).pg =
            w.pg.setRole g' target role := by
          simp [prog, Db.changeMemberRole, pgCall, Prog.after, Prog.exec_request, hpg, Except.map]
        rwa [hafter'] at hafter
    | _ => trivial
  · intro hkeeps
    exact oneOwner_faulty h hkeeps (Prog.faulty_exec _ w)

end GroupOp

/-- The operations one after the other, each of them allowed in the database it finds and
executed with any of its calls lost. -/
inductive Performed (castRole : Int → Option GroupRole) (allowed : Postgres → GroupOp → Prop)
    (w : World) : World → Prop where
  | start : Performed castRole allowed w w
  | op {t u : World} {r : Except Error Unit} (op : GroupOp) : Performed castRole allowed w t →
      allowed t.pg op → Prog.Faulty (op.prog castRole) t r u → Performed castRole allowed w u

theorem Performed.oneOwner {castRole : Int → Option GroupRole} {g : GroupId} {w t : World}
    (hrun : Performed castRole (GroupOp.KeepsOwner g) w t) (h : w.pg.OneOwner g) :
    t.pg.OneOwner g := by
  induction hrun with
  | start => exact h
  | op op _ hkeeps hf ih => exact GroupOp.oneOwner_faulty ih hkeeps hf

namespace Postgres

variable {pg : Postgres} {g : GroupId}

/-- An identifier that no row uses. -/
def Fresh (pg : Postgres) (g : GroupId) : Prop := pg.groups.find g = none ∧ pg.membersOf g = []

theorem Fresh.not_mem (h : pg.Fresh g) {u : UserId} {role : GroupRole} {isMuted : Bool} :
    ⟨g, u, role, isMuted⟩ ∉ pg.groupMembers.rows := by
  intro hr
  have hu := (mem_membersOf pg g u).mpr ⟨_, hr, rfl⟩
  rw [h.2] at hu
  cases hu

/-- The member rows of a fresh group are not refused. -/
theorem Fresh.insert_members (h : pg.Fresh g) (role : UserId → GroupRole) (p : UserId → Bool) :
    ∃ t, ((pg.users.rows.filter p).map fun u => (⟨g, u, role u, false⟩ : GroupMemberRow)).foldlM
      (fun t r => t.insert r) pg.groupMembers = some t := by
  apply Table.exists_foldlM_insert
  · have hn : (pg.users.rows.filter p).Nodup := by
      have hn := pg.users.nodup
      rw [List.map_id] at hn
      exact hn.filter p
    rw [List.map_map]
    apply hn.map
    intro a b hab
    exact congrArg Prod.snd hab
  · intro r hr
    obtain ⟨u, -, rfl⟩ := List.mem_map.mp hr
    rw [Table.find_eq_none]
    rintro ⟨g', u', role', isMuted⟩ hq hk
    cases hk
    exact h.not_mem hq

/-- With a fresh identifier the group is created, and its owner row is there exactly when
the owner is an existing user among the members listed. -/
theorem createGroupWithMembers_fresh (group : GroupCreate) (h : pg.Fresh group.id) :
    ∃ members pg', pg.createGroupWithMembers group = .ok (members, pg') ∧
      (pg'.OneOwner group.id ↔ group.owner ∈ pg.users.rows ∧ group.owner ∈ group.membersId) := by
  unfold createGroupWithMembers
  cases hg : pg.groups.insert ⟨group.id, group.owner, .admin⟩ with
  | none =>
    obtain ⟨q, hq, hk⟩ := Table.insert_eq_none hg
    exact absurd hk ((Table.find_eq_none _ _).mp h.1 q hq)
  | some groups =>
    obtain ⟨t, ht⟩ := h.insert_members (fun u => if u = group.owner then .owner else .member)
      (· ∈ group.membersId)
    dsimp only
    rw [ht]
    refine ⟨_, _, rfl, ?_⟩
    have hrows := Table.rows_foldlM_insert ht
    have howner : ({ pg with groups, groupMembers := t } : Postgres).ownerOf group.id =
        some group.owner := by
      simp [ownerOf, Table.find_insert hg]
    rw [OneOwner.iff_of_ownerOf howner rfl]
    simp only [roleOf_eq_some, hrows, List.mem_append, h.not_mem, false_or, List.mem_map,
      List.mem_filter, decide_eq_true_eq, GroupMemberRow.mk.injEq, true_and]
    constructor
    · intro hall
      obtain ⟨-, u, hu, rfl, -⟩ := (hall group.owner).mpr rfl
      exact hu
    · rintro hmem u
      constructor
      · rintro ⟨-, v, -, rfl, hrole, -⟩
        by_contra hne
        simp [hne] at hrole
      · rintro rfl
        exact ⟨_, _, hmem, rfl, by simp, rfl⟩

end Postgres

namespace GroupApi

/-- A notification goes through the counters of the sender and the queue. -/
theorem frame_notify {γ : Type} {f : World → γ}
    (hscript : ∀ (w : World) handed hashes, f (w.script handed hashes) = f w)
    (hqueue : ∀ (w : World) queue, f { w with queue } = f w) (cfg : Config) (nanoid : String) (u : UserId)
    (request : Int → Int → SendMsgRequest) : Prog.Frame f (notify cfg nanoid u request) := by
  apply Prog.frame_bind (Prog.frame_update fun _ => hscript _ _ _)
  rintro ⟨seq, _, _⟩
  apply Prog.frame_bind (Prog.frame_update fun _ => rfl)
  intro now
  apply Prog.frame_void
  refine Prog.frame_mono (Producer.frame_sendMsg _ _) ?_
  intro s t h
  rw [World.eq_of_outsideQueue h, hqueue]

theorem oneOwner_createGroupHandler {cfg : Config} {g : GroupId} {nanoid : String}
    {content : Bincode.Bytes} {userId : UserId} {newGroup : GroupCreate} {w : World}
    (h : w.pg.Fresh g) :
    ((createGroupHandler cfg g nanoid content userId newGroup).after w).pg.OneOwner g ↔
      newGroup.owner ∈ w.pg.users.rows ∧
        newGroup.owner ∈ newGroup.membersId.filter (· ≠ "") ++ [userId] := by
  obtain ⟨members, pg', hpg, hiff⟩ := Postgres.createGroupWithMembers_fresh
    ⟨g, newGroup.owner, newGroup.membersId.filter (· ≠ "") ++ [userId]⟩ h
  have hexec : Prog.exec (Db.createGroupWithMembers
      ⟨g, newGroup.owner, newGroup.membersId.filter (· ≠ "") ++ [userId]⟩) w =
      (.ok members, { w with pg := pg' }) := by
    simp only [Db.createGroupWithMembers, pgCall, Prog.exec_request, hpg, Except.map]
  have hrest : Prog.Frame World.pg (Cache.saveGroupMembersId g members >>= fun _ =>
      notify cfg nanoid userId fun seq now =>
        SendMsgRequest.newWithGroupInvitation userId g seq content now) := by
    apply Prog.frame_bind
    · exact Prog.frame_mono (Cache.frame_saveGroupMembersId _ _) fun s t h => (congrArg World.pg h :)
    · exact fun _ => frame_notify (fun _ _ _ => rfl) (fun _ _ => rfl) _ _ _ _
  have hpg' := Prog.frame_after hrest { w with pg := pg' }
  rw [← hiff, createGroupHandler, Prog.after, Prog.exec_bind, hexec]
  dsimp only
  rw [← Prog.after, hpg']

end GroupApi

/-- In a run whose operations all meet the condition the group keeps its one owner, each
operation run alone keeps it exactly under the condition, and a new group has it exactly
when the owner in the request is an existing user among the members of the request. -/
theorem one_owner_iff (castRole : Int → Option GroupRole) (g : GroupId) :
    (∀ w t, w.pg.OneOwner g → Performed castRole (GroupOp.KeepsOwner g) w t → t.pg.OneOwner g) ∧
    (∀ (w : World) (op : GroupOp), w.pg.OneOwner g →
      (((op.prog castRole).after w).pg.OneOwner g ↔ op.KeepsOwner g w.pg)) ∧
    ∀ cfg nanoid content userId (newGroup : GroupCreate) (w : World), w.pg.Fresh g →
      (((GroupApi.createGroupHandler cfg g nanoid content userId newGroup).after w).pg.OneOwner g ↔
        newGroup.owner ∈ w.pg.users.rows ∧
          newGroup.owner ∈ newGroup.membersId.filter (· ≠ "") ++ [userId]) := by
  refine ⟨?_, ?_, ?_⟩
  · exact fun w t h hrun => hrun.oneOwner h
  · exact fun w op h => GroupOp.oneOwner_after_iff h
  · exact fun cfg nanoid content userId newGroup w h => GroupApi.oneOwner_createGroupHandler h

/-- Two users and no group. -/
def unfounded : World :=
  { World.empty with pg := { Postgres.empty with users := ⟨["a", "b"], by decide⟩ } }

/-- `a` creates a group with `b`, in the name of an owner. -/
def founded (owner : UserId) : World :=
  (GroupApi.createGroupHandler ⟨1, .plain, fun _ => 0⟩ "g" "id" [] "a" ⟨"", owner, ["b"]⟩).after
    unfounded

theorem one_owner_iff_founded :
    (founded "a").pg.OneOwner "g" ∧
      ((GroupOp.prog (fun _ => none) (.removeMember "g" "a" ["b"])).after
        (founded "a")).pg.OneOwner "g" := by
  have h : (founded "a").pg.OneOwner "g" :=
    ((one_owner_iff (fun _ => none) "g").2.2 _ _ _ _ _ _ ⟨by decide, by decide⟩).mpr (by decide)
  have hkeeps : GroupOp.KeepsOwner "g" (founded "a").pg (.removeMember "g" "a" ["b"]) := by
    intro _ _ o ho
    have ha : (founded "a").pg.ownerOf "g" = some "a" := by decide
    rw [ha] at ho
    cases ho
    decide
  exact ⟨h, ((one_owner_iff (fun _ => none) "g").2.1 _ _ h).mpr hkeeps⟩

/-- The owner removes itself, and a group is founded for an owner who is not a user. -/
theorem owner_lost :
    (¬ ∀ w t, w.pg.OneOwner "g" → Performed (fun _ => none) (fun _ _ => True) w t →
      t.pg.OneOwner "g") ∧
    ¬ (founded "c").pg.OneOwner "g" := by
  constructor
  · intro h
    have hrun : Performed (fun _ => none) (fun _ _ => True) (founded "a")
        ((GroupOp.prog (fun _ => none) (.removeMember "g" "a" ["a"])).after (founded "a")) :=
      .op (.removeMember "g" "a" ["a"]) .start trivial (Prog.faulty_exec _ _)
    have hnone : ((GroupOp.prog (fun _ => none) (.removeMember "g" "a" ["a"])).after
        (founded "a")).pg.ownerRows "g" = [] := by decide
    obtain ⟨o, -, ho⟩ := h _ _ ⟨"a", by decide, by decide⟩ hrun
    rw [hnone] at ho
    cases ho
  · have hnone : (founded "c").pg.ownerRows "g" = [] := by decide
    rintro ⟨o, -, ho⟩
    rw [hnone] at ho
    cases ho

end Sandcat
