import Sandcat.Ownership

/-!
# Ranks in a group

An owner ranks above an administrator and an administrator above a member. The code nowhere
compares ranks: an operation asks for one of two roles, or compares the names of roles as
text. What a call does to the row of another member, and who is permitted to make it, are
held against the ranks here.
-/

namespace Sandcat

open Remote

namespace GroupRole

def rank : GroupRole → Nat
  | .member => 0
  | .admin => 1
  | .owner => 2

/-- The comparison of names in `mute_group_member`: an administrator is never muted, an
owner only by somebody else than an owner. -/
theorem higher_or_equal_iff (target operator : GroupRole) :
    (target.text ≤ operator.text ∧ target.text ≠ "Member") ↔
      target = .admin ∨ target = .owner ∧ operator = .owner := by
  cases target <;> cases operator <;> decide

/-- The comparison of names in `invite_new_members`: a higher role passes where a lower one does,
except that `Owner` comes last in the order of the names. -/
theorem text_le_monotone_iff {role role' : GroupRole} (hlt : role.rank < role'.rank)
    (invitePermission : GroupRole) :
    (role.text ≤ invitePermission.text → role'.text ≤ invitePermission.text) ↔
      ¬ (role' = .owner ∧ (invitePermission = .member ∨ invitePermission = .admin ∧ role = .admin)) := by
  revert hlt
  cases role <;> cases role' <;> cases invitePermission <;> decide

/-- Above a member, and above an administrator only the owner. -/
theorem rank_lt_iff (role role' : GroupRole) : role.rank < role'.rank ↔
    role = .member ∧ role' ≠ .member ∨ role = .admin ∧ role' = .owner := by
  cases role <;> cases role' <;> decide

end GroupRole

/-- The calls of an operator in a group. -/
inductive GroupCall where
  | removeMember (memIds : List UserId)
  | changeMemberRole (targetId : UserId) (newRole : String)
  | muteGroupMember (userId : UserId)
  | unmuteGroupMember (userId : UserId)
  | inviteNewMembers (members : List UserId)
  | createAnnouncement

namespace GroupCall

def prog (g : GroupId) (operator : UserId) : GroupCall → M Unit
  | .removeMember memIds => Db.removeMember g operator memIds
  | .changeMemberRole target newRole => Db.changeMemberRole g operator target newRole
  | .muteGroupMember u => Db.muteGroupMember g u operator
  | .unmuteGroupMember u => Db.unmuteGroupMember g u operator
  | .inviteNewMembers members => Db.inviteNewMembers ⟨operator, g, members⟩
  | .createAnnouncement => Db.createAnnouncement g operator

end GroupCall

theorem exec_pgCall {α : Type} (f : Postgres → Except Error (α × Postgres)) (w : World) :
    Prog.exec (pgCall f) w =
      match f w.pg with
      | .ok (a, pg) => (.ok a, { w with pg })
      | .error e => (.error e, w) := by
  rw [pgCall, Prog.exec_request]
  cases f w.pg <;> rfl

/-- A check in front of the rest. -/
theorem exec_query_bind {α β : Type} (q : Postgres → α) (k : α → M β) (w : World) :
    Prog.exec (pgCall (fun pg => .ok (q pg, pg)) >>= k) w = Prog.exec (k (q w.pg)) w := by
  rw [Prog.exec_bind, exec_pgCall]

theorem exec_fetchRole_bind {β : Type} (g : GroupId) (u : UserId) (k : GroupRole → M β) (w : World) :
    Prog.exec (pgCall (Postgres.fetchRole g u) >>= k) w =
      match w.pg.roleOf g u with
      | some role => Prog.exec (k role) w
      | none => (.error rowNotFound, w) := by
  rw [Prog.exec_bind, exec_pgCall, Postgres.fetchRole]
  cases w.pg.roleOf g u <;> rfl

namespace Postgres

variable {pg : Postgres} {g : GroupId} {u : UserId}

theorem isAdminOrOwner_iff : pg.isAdminOrOwner g u = true ↔
    pg.roleOf g u = some .admin ∨ pg.roleOf g u = some .owner := by
  simp [isAdminOrOwner]

theorem exists_role (h : pg.isAdminOrOwner g u = true) : ∃ role, pg.roleOf g u = some role := by
  obtain h | h := isAdminOrOwner_iff.mp h
  · exact ⟨_, h⟩
  · exact ⟨_, h⟩

end Postgres

namespace Db

variable (g : GroupId) (u operator : UserId) (w : World)

/-- Who mutes whom, role by role. -/
theorem exec_muteGroupMember :
    Prog.exec (muteGroupMember g u operator) w =
      if w.pg.isAdminOrOwner g operator = true then
        match w.pg.roleOf g u with
        | none => (.error rowNotFound, w)
        | some target =>
          if target = .admin ∨ target = .owner ∧ w.pg.roleOf g operator = some .owner then
            (.error (.mk .unAuthorized (some "Cannot mute higher or equal role")), w)
          else (.ok (), { w with pg := w.pg.setMuted g u true })
      else (.error (.mk .unAuthorized (some "No permission to mute members")), w) := by
  rw [muteGroupMember, exec_query_bind]
  cases hop : w.pg.isAdminOrOwner g operator with
  | false => rfl
  | true =>
    simp only [Bool.not_true, Bool.false_eq_true, if_false, if_true]
    rw [exec_fetchRole_bind]
    cases w.pg.roleOf g u with
    | none => rfl
    | some target =>
      dsimp only
      obtain ⟨role, hrole⟩ := Postgres.exists_role hop
      simp only [exec_fetchRole_bind, hrole, GroupRole.higher_or_equal_iff, Option.some.injEq]
      split
      · rfl
      · rw [writeMuteRecord, exec_query_bind, exec_pgCall]

theorem exec_unmuteGroupMember :
    Prog.exec (unmuteGroupMember g u operator) w =
      if w.pg.isAdminOrOwner g operator = true then
        (.ok (), { w with pg := w.pg.setMuted g u false })
      else (.error (.mk .unAuthorized (some "No permission to unmute members")), w) := by
  rw [unmuteGroupMember, exec_query_bind]
  cases w.pg.isAdminOrOwner g operator with
  | false => rfl
  | true => rfl

theorem exec_inviteNewMembers (group : GroupInviteNew) :
    Prog.exec (inviteNewMembers group) w =
      if w.pg.mayInvite group.groupId group.userId = true then
        (.ok (), { w with pg := w.pg.insertMembers group.groupId group.members })
      else (.error (.mk .unAuthorized (some "user doesn't have permission to invite")), w) := by
  rw [inviteNewMembers, exec_query_bind]
  cases w.pg.mayInvite group.groupId group.userId with
  | false => rfl
  | true => rfl

theorem exec_createAnnouncement :
    Prog.exec (createAnnouncement g operator) w =
      if w.pg.isAdminOrOwner g operator = true then
        match w.pg.groups.find g with
        | none => (.error (.mk .dbError (some "insert violates foreign key constraint")), w)
        | some _ => (.ok (), w)
      else (.error (.mk .unAuthorized (some "No permission to create announcements")), w) := by
  rw [createAnnouncement, exec_query_bind]
  cases w.pg.isAdminOrOwner g operator with
  | false => rfl
  | true =>
    simp only [Bool.not_true, Bool.false_eq_true, if_false, if_true, exec_pgCall,
      Postgres.insertGroupRecord]
    cases w.pg.groups.find g <;> rfl

end Db

namespace Postgres

variable {pg : Postgres} {g : GroupId} {b : UserId} {row : GroupMemberRow}

theorem userId_of_find (h : pg.groupMembers.find (g, b) = some row) : row.userId = b :=
  congrArg Prod.snd ((Table.find_eq_some _ _ _).mp h).2

/-- The row stays exactly when it is not among those removed. -/
theorem find_removeMember_ne_iff (operator : UserId) (memIds : List UserId)
    (h : pg.groupMembers.find (g, b) = some row) :
    (pg.removeMember g operator memIds).groupMembers.find (g, b) ≠ some row ↔
      pg.isAdminOrOwner g operator = true ∧ row.userId ∈ memIds := by
  obtain ⟨hmem, hkey⟩ := (Table.find_eq_some _ _ _).mp h
  have hg : row.groupId = g := congrArg Prod.fst hkey
  unfold removeMember
  split
  · rename_i hop
    simp [Table.find_eq_some, hmem, hkey, hg, hop]
  · rename_i hop
    simp [h, hop]

/-- An update of the rows of one member, seen from another one. -/
theorem find_modify_ne_iff {u : UserId} {f : GroupMemberRow → GroupMemberRow}
    (hf : ∀ r, (f r).key = r.key) (h : pg.groupMembers.find (g, b) = some row) :
    (pg.groupMembers.modify (fun q => decide (q.key = (g, u))) f hf).find (g, b) ≠ some row ↔
      u = row.userId ∧ f row ≠ row := by
  have hkey := ((Table.find_eq_some _ _ _).mp h).2
  rw [Table.find_modify, h, Option.map_some, hkey, userId_of_find h]
  by_cases hu : u = b
  · simp [hu]
  · simp [hu, Ne.symm hu]

theorem find_setRole_ne_iff {u : UserId} {role : GroupRole}
    (h : pg.groupMembers.find (g, b) = some row) :
    (pg.setRole g u role).groupMembers.find (g, b) ≠ some row ↔ u = row.userId ∧ role ≠ row.role := by
  refine (find_modify_ne_iff (f := GroupMemberRow.withRole role) (fun _ => rfl) h).trans ?_
  cases row
  simp [GroupMemberRow.withRole]

theorem find_setMuted_ne_iff {u : UserId} {isMuted : Bool}
    (h : pg.groupMembers.find (g, b) = some row) :
    (pg.setMuted g u isMuted).groupMembers.find (g, b) ≠ some row ↔
      u = row.userId ∧ isMuted ≠ row.isMuted := by
  refine (find_modify_ne_iff (f := GroupMemberRow.withMuted isMuted) (fun _ => rfl) h).trans ?_
  cases row
  simp [GroupMemberRow.withMuted]

theorem find_insertMembers_of_some (g' : GroupId) (members : List UserId)
    (h : pg.groupMembers.find (g, b) = some row) :
    (pg.insertMembers g' members).groupMembers.find (g, b) = some row := by
  unfold insertMembers
  dsimp only
  generalize pg.groupMembers = t at h
  generalize pg.users.rows.filter (· ∈ members) = new
  induction new generalizing t with
  | nil => exact h
  | cons v new ih =>
    apply ih
    rw [Table.find_insertNew, h, Option.some_or]

/-- The operator is a member of a rank above the role. -/
def Outranks (pg : Postgres) (g : GroupId) (operator : UserId) (role : GroupRole) : Prop :=
  ∃ r, pg.roleOf g operator = some r ∧ role.rank < r.rank

/-- The operator has a role that the checks ask for, but none above the other role. -/
def Level (pg : Postgres) (g : GroupId) (operator : UserId) (role : GroupRole) : Prop :=
  pg.roleOf g operator = some .admin ∧ role ≠ .member ∨
    pg.roleOf g operator = some .owner ∧ role = .owner

theorem level_iff {operator : UserId} {role : GroupRole} : pg.Level g operator role ↔
    pg.isAdminOrOwner g operator = true ∧ ¬ pg.Outranks g operator role := by
  rw [isAdminOrOwner_iff, Level, Outranks]
  cases pg.roleOf g operator with
  | none => simp
  | some r => cases r <;> cases role <;> simp [GroupRole.rank]

theorem mayGiveRole_iff_isAdminOrOwner {operator : UserId} {newRole : String} :
    pg.MayGiveRole g operator newRole ↔ pg.isAdminOrOwner g operator = true ∧
      (newRole = "Owner" → pg.roleOf g operator = some .owner) := by
  rw [MayGiveRole, isAdminOrOwner_iff]
  cases pg.roleOf g operator with
  | none => simp
  | some r => cases r <;> simp

end Postgres

namespace GroupCall

variable {g : GroupId} {operator b : UserId} {row : GroupMemberRow}

/-- The call writes into the row, or deletes it. -/
def Changes (pg : Postgres) (g : GroupId) (operator : UserId) (row : GroupMemberRow) :
    GroupCall → Prop
  | .removeMember memIds => pg.isAdminOrOwner g operator = true ∧ row.userId ∈ memIds
  | .changeMemberRole target newRole => target = row.userId ∧
      pg.MayGiveRole g operator newRole ∧ ∃ role, GroupRole.ofText newRole = some role ∧ role ≠ row.role
  | .muteGroupMember u => u = row.userId ∧ pg.isAdminOrOwner g operator = true ∧
      ¬ (row.role = .admin ∨ row.role = .owner ∧ pg.roleOf g operator = some .owner) ∧
      row.isMuted = false
  | .unmuteGroupMember u => u = row.userId ∧ pg.isAdminOrOwner g operator = true ∧ row.isMuted = true
  | .inviteNewMembers _ => False
  | .createAnnouncement => False

theorem changes_changeMemberRole_iff (target : UserId) (newRole : String) {w : World}
    (h : w.pg.groupMembers.find (g, b) = some row) :
    ((Db.changeMemberRole g operator target newRole).after w).pg.groupMembers.find (g, b) ≠ some row ↔
      Changes w.pg g operator row (.changeMemberRole target newRole) := by
  rw [Prog.after, Db.changeMemberRole, exec_pgCall, Changes]
  obtain ⟨⟨e, he⟩, hno⟩ | ⟨role, hpg, hmay, hofText, -⟩ :=
    w.pg.changeMemberRole_cases g operator target newRole
  · rw [he]
    refine iff_of_false (not_not.mpr h) ?_
    rintro ⟨rfl, hmay, role, hofText, -⟩
    refine hno ⟨hmay, by simp [hofText], ?_⟩
    rw [Postgres.mem_membersOf, Postgres.userId_of_find h]
    exact ⟨row, (Table.find_eq_some _ _ _).mp h⟩
  · rw [hpg]
    refine (Postgres.find_setRole_ne_iff h).trans ?_
    simp [hmay, hofText]

theorem changes_muteGroupMember_iff (u : UserId) {w : World}
    (h : w.pg.groupMembers.find (g, b) = some row) :
    ((Db.muteGroupMember g u operator).after w).pg.groupMembers.find (g, b) ≠ some row ↔
      Changes w.pg g operator row (.muteGroupMember u) := by
  have hsame : w.pg.groupMembers.find (g, b) ≠ some row ↔ False := by simp [h]
  rw [Prog.after, Db.exec_muteGroupMember, Changes]
  by_cases hu : u = b
  · subst hu
    rw [Postgres.roleOf, h, Option.map_some]
    split
    · rename_i hop
      dsimp only
      split
      · rename_i hno
        rw [hsame, false_iff]
        exact fun hc => hc.2.2.1 hno
      · rename_i hno
        rw [Postgres.find_setMuted_ne_iff h]
        simp only [hop, hno, not_false_iff, true_and, Ne, Bool.true_eq, Bool.not_eq_true]
    · rename_i hop
      rw [hsame, false_iff]
      exact fun hc => hop hc.2.1
  · -- somebody else is muted, in whichever branch the call ends
    have hne : u ≠ row.userId := fun he => hu (he.trans (Postgres.userId_of_find h))
    simp only [hne, false_and]
    split
    · split
      · exact hsame
      · split
        · exact hsame
        · simp only [Postgres.find_setMuted_ne_iff h, hne, false_and]
    · exact hsame

/-- What each call does to a row of the group. -/
theorem changes_iff (c : GroupCall) {w : World} (h : w.pg.groupMembers.find (g, b) = some row) :
    ((c.prog g operator).after w).pg.groupMembers.find (g, b) ≠ some row ↔
      c.Changes w.pg g operator row := by
  have hsame : w.pg.groupMembers.find (g, b) ≠ some row ↔ False := by simp [h]
  cases c with
  | removeMember memIds => exact Postgres.find_removeMember_ne_iff operator memIds h
  | changeMemberRole target newRole => exact changes_changeMemberRole_iff target newRole h
  | muteGroupMember u => exact changes_muteGroupMember_iff u h
  | unmuteGroupMember u =>
    rw [Prog.after, prog, Db.exec_unmuteGroupMember, Changes]
    split
    · rename_i hop
      rw [Postgres.find_setMuted_ne_iff h]
      simp only [hop, true_and, Ne, Bool.false_eq, Bool.not_eq_false]
    · rename_i hop
      rw [hsame, false_iff]
      exact fun hc => hop hc.2.1
  | inviteNewMembers members =>
    rw [Prog.after, prog, Db.exec_inviteNewMembers]
    split
    · simp [Changes, Postgres.find_insertMembers_of_some _ _ h]
    · exact hsame
  | createAnnouncement =>
    rw [Prog.after, prog, Db.exec_createAnnouncement]
    split
    · split
      · exact hsame
      · exact hsame
    · exact hsame

/-- The call is made against somebody whom the operator does not outrank, and it is not
turned away: it lists or names the member, and writes something new. -/
def Oversteps (pg : Postgres) (g : GroupId) (operator : UserId) (row : GroupMemberRow) :
    GroupCall → Prop
  | .removeMember memIds => pg.Level g operator row.role ∧ row.userId ∈ memIds
  | .changeMemberRole target newRole => pg.Level g operator row.role ∧ target = row.userId ∧
      (newRole = "Owner" → pg.roleOf g operator = some .owner) ∧
      ∃ role, GroupRole.ofText newRole = some role ∧ role ≠ row.role
  | .muteGroupMember u => pg.roleOf g operator = some .admin ∧ u = row.userId ∧ row.role = .owner ∧
      row.isMuted = false
  | .unmuteGroupMember u => pg.Level g operator row.role ∧ u = row.userId ∧ row.isMuted = true
  | .inviteNewMembers _ => False
  | .createAnnouncement => False

theorem oversteps_iff (c : GroupCall) (pg : Postgres) : c.Oversteps pg g operator row ↔
    c.Changes pg g operator row ∧ ¬ pg.Outranks g operator row.role := by
  cases c with
  | removeMember memIds =>
    simp only [Oversteps, Changes, Postgres.level_iff, and_right_comm]
  | changeMemberRole target newRole =>
    simp only [Oversteps, Changes, Postgres.level_iff, Postgres.mayGiveRole_iff_isAdminOrOwner]
    constructor
    · rintro ⟨⟨hop, hno⟩, ht, hmay, hnew⟩
      exact ⟨⟨ht, ⟨hop, hmay⟩, hnew⟩, hno⟩
    · rintro ⟨⟨ht, ⟨hop, hmay⟩, hnew⟩, hno⟩
      exact ⟨⟨hop, hno⟩, ht, hmay, hnew⟩
  | muteGroupMember u =>
    simp only [Oversteps, Changes, Postgres.isAdminOrOwner_iff, Postgres.Outranks]
    cases pg.roleOf g operator with
    | none => simp
    | some r => cases r <;> cases row.role <;> simp [GroupRole.rank]
  | unmuteGroupMember u =>
    simp only [Oversteps, Changes, Postgres.level_iff]
    constructor
    · rintro ⟨⟨hop, hno⟩, hu, hm⟩
      exact ⟨⟨hu, hop, hm⟩, hno⟩
    · rintro ⟨⟨hu, hop, hm⟩, hno⟩
      exact ⟨⟨hop, hno⟩, hu, hm⟩
  | inviteNewMembers members => simp [Oversteps, Changes]
  | createAnnouncement => simp [Oversteps, Changes]

end GroupCall

/-- A call changes the rows of members of lower rank only exactly when it is not made, with
effect, against somebody of the same rank or above. -/
theorem rank_respected_iff (c : GroupCall) (g : GroupId) (a : UserId) (w : World) :
    (∀ b row, b ≠ a → w.pg.groupMembers.find (g, b) = some row →
      ((c.prog g a).after w).pg.groupMembers.find (g, b) ≠ some row → w.pg.Outranks g a row.role) ↔
    ∀ b row, b ≠ a → w.pg.groupMembers.find (g, b) = some row → ¬ c.Oversteps w.pg g a row := by
  simp only [GroupCall.oversteps_iff, not_and, not_not]
  constructor
  · intro h b row hb hrow hc
    exact h b row hb hrow ((c.changes_iff hrow).mpr hc)
  · intro h b row hb hrow hne
    exact h b row hb hrow ((c.changes_iff hrow).mp hne)

/-- A group of an owner, an administrator and a member. -/
def chaired : World :=
  let users := ⟨["o", "a", "m"], by decide⟩
  let groups := ⟨[⟨"g", "o", .admin⟩], by decide⟩
  let groupMembers := ⟨[⟨"g", "o", .owner, false⟩, ⟨"g", "a", .admin, false⟩,
    ⟨"g", "m", .member, false⟩], by decide⟩
  { World.empty with pg := { Postgres.empty with users, groups, groupMembers } }

/-- The administrator removes the owner. -/
theorem owner_outranked :
    ¬ ∀ (c : GroupCall) (g : GroupId) (a b : UserId) (row : GroupMemberRow) (w : World), b ≠ a →
      w.pg.groupMembers.find (g, b) = some row →
      ((c.prog g a).after w).pg.groupMembers.find (g, b) ≠ some row →
      w.pg.Outranks g a row.role := by
  intro h
  obtain ⟨r, hr, hlt⟩ := h (.removeMember ["o"]) "g" "a" "o" ⟨"g", "o", .owner, false⟩ chaired
    (by decide) (by decide) (by decide)
  have hadmin : chaired.pg.roleOf "g" "a" = some .admin := by decide
  rw [hadmin] at hr
  cases hr
  revert hlt
  decide

namespace GroupCall

variable {g : GroupId} {operator : UserId} {w : World}

/-- The call was turned away. -/
def Refused (answer : Except Error Unit) : Prop :=
  ∃ details, answer = .error (.mk .unAuthorized details)

/-- A removal is never turned away; its permission is the condition of the `DELETE`. -/
def Permitted (g : GroupId) (operator : UserId) (w : World) : GroupCall → Prop
  | .removeMember _ => w.pg.isAdminOrOwner g operator = true
  | c => ¬ Refused (Prog.exec (c.prog g operator) w).1

/-- The checks, from the role of the operator. -/
def Allows (pg : Postgres) (g : GroupId) (role : GroupRole) : GroupCall → Prop
  | .removeMember _ => role ≠ .member
  | .changeMemberRole _ newRole => role = .owner ∨ role = .admin ∧ newRole ≠ "Owner"
  | .muteGroupMember u => role ≠ .member ∧ pg.roleOf g u ≠ some .admin ∧
      ¬ (pg.roleOf g u = some .owner ∧ role = .owner)
  | .unmuteGroupMember _ => role ≠ .member
  | .inviteNewMembers _ => ∃ row, pg.groups.find g = some row ∧
      role.text ≤ row.invitePermission.text
  | .createAnnouncement => role ≠ .member

theorem isAdminOrOwner_eq_true_iff {role : GroupRole} {pg : Postgres}
    (h : pg.roleOf g operator = some role) :
    pg.isAdminOrOwner g operator = true ↔ role ≠ .member := by
  rw [Postgres.isAdminOrOwner_iff, h]
  cases role <;> simp

/-- Behind one check. -/
theorem not_refused_ite {p : Prop} [Decidable p] {x : Except Error Unit × World}
    {details : Option String} (hx : ¬ Refused x.1) :
    ¬ Refused (if p then x else (.error (.mk .unAuthorized details), w)).1 ↔ p := by
  split
  · rename_i hp
    exact iff_of_true hx hp
  · rename_i hp
    exact iff_of_false (fun hno => hno ⟨_, rfl⟩) hp

theorem not_refused_ok : ¬ Refused (.ok ()) := by
  rintro ⟨_, h⟩
  cases h

theorem not_refused_dbError {details : Option String} : ¬ Refused (.error (.mk .dbError details)) := by
  rintro ⟨_, h⟩
  cases h

/-- A change of roles by a member is turned away by the check of the role only. -/
theorem refused_changeMemberRole_iff {role : GroupRole} {target : UserId} {newRole : String}
    (h : w.pg.roleOf g operator = some role) :
    ¬ Refused (Prog.exec (Db.changeMemberRole g operator target newRole) w).1 ↔
      role = .owner ∨ role = .admin ∧ newRole ≠ "Owner" := by
  rw [Db.changeMemberRole, exec_pgCall, Postgres.changeMemberRole, h]
  dsimp only
  have hcheck : (role.text != "Owner" && (role.text != "Admin" || newRole == "Owner")) = true ↔
      ¬ (role = .owner ∨ role = .admin ∧ newRole ≠ "Owner") := by
    cases role <;> simp [GroupRole.text]
  simp only [hcheck]
  by_cases hmay : role = .owner ∨ role = .admin ∧ newRole ≠ "Owner"
  · rw [if_neg (not_not.mpr hmay)]
    refine iff_of_true ?_ hmay
    cases GroupRole.ofText newRole with
    | none => exact not_refused_dbError
    | some r =>
      cases w.pg.groupMembers.find (g, target) with
      | none => exact not_refused_dbError
      | some row => exact not_refused_ok
  · rw [if_pos hmay]
    exact iff_of_false (fun hr => hr ⟨_, rfl⟩) hmay

theorem refused_muteGroupMember_iff {role : GroupRole} {u : UserId}
    (h : w.pg.roleOf g operator = some role) :
    ¬ Refused (Prog.exec (Db.muteGroupMember g u operator) w).1 ↔
      role ≠ .member ∧ w.pg.roleOf g u ≠ some .admin ∧
        ¬ (w.pg.roleOf g u = some .owner ∧ role = .owner) := by
  rw [Db.exec_muteGroupMember, h]
  by_cases hop : w.pg.isAdminOrOwner g operator = true
  · rw [if_pos hop]
    have hrole := (isAdminOrOwner_eq_true_iff h).mp hop
    cases w.pg.roleOf g u with
    | none => simp [hrole, rowNotFound, not_refused_dbError]
    | some target => 
      dsimp only
      split
      · rename_i hno
        refine iff_of_false (fun hr => hr ⟨_, rfl⟩) ?_
        rintro ⟨-, hadmin, howner⟩
        obtain rfl | ⟨rfl, hr⟩ := hno
        · exact hadmin rfl
        · exact howner ⟨rfl, Option.some.inj hr⟩
      · rename_i hno
        refine iff_of_true not_refused_ok ⟨hrole, ?_, ?_⟩
        · rintro ht
          exact hno (.inl (Option.some.inj ht))
        · rintro ⟨ht, rfl⟩
          exact hno (.inr ⟨Option.some.inj ht, rfl⟩)
  · rw [if_neg hop]
    refine iff_of_false (fun hr => hr ⟨_, rfl⟩) ?_
    exact fun hmay => hop ((isAdminOrOwner_eq_true_iff h).mpr hmay.1)

theorem permitted_iff (c : GroupCall) {role : GroupRole} (h : w.pg.roleOf g operator = some role) :
    c.Permitted g operator w ↔ c.Allows w.pg g role := by
  have hop := isAdminOrOwner_eq_true_iff h
  cases c with
  | removeMember memIds => exact hop
  | changeMemberRole target newRole => exact refused_changeMemberRole_iff h
  | muteGroupMember u => exact refused_muteGroupMember_iff h
  | unmuteGroupMember u =>
    show ¬ Refused (Prog.exec (Db.unmuteGroupMember g u operator) w).1 ↔ role ≠ .member
    rw [Db.exec_unmuteGroupMember, not_refused_ite not_refused_ok, hop]
  | inviteNewMembers members =>
    show ¬ Refused (Prog.exec (Db.inviteNewMembers ⟨operator, g, members⟩) w).1 ↔ _
    rw [Db.exec_inviteNewMembers, not_refused_ite not_refused_ok, Postgres.mayInvite, h, Allows]
    cases w.pg.groups.find g with
    | none => simp
    | some row => simp
  | createAnnouncement =>
    show ¬ Refused (Prog.exec (Db.createAnnouncement g operator) w).1 ↔ role ≠ .member
    rw [Db.exec_createAnnouncement, not_refused_ite, hop]
    cases w.pg.groups.find g with
    | none => exact not_refused_dbError
    | some row => exact not_refused_ok

/-- A higher role of the operator takes the permission away: that of the owner to invite,
unless owners may invite, and that of the owner to mute another owner. -/
def Inverts (pg : Postgres) (g : GroupId) (role role' : GroupRole) : GroupCall → Prop
  | .inviteNewMembers _ => role' = .owner ∧ ∃ row, pg.groups.find g = some row ∧
      (row.invitePermission = .member ∨ row.invitePermission = .admin ∧ role = .admin)
  | .muteGroupMember u => role = .admin ∧ pg.roleOf g u = some .owner
  | _ => False

theorem allows_monotone_iff (c : GroupCall) {pg pg' : Postgres} {role role' : GroupRole}
    (hrole : pg.roleOf g operator = some role) (hlt : role.rank < role'.rank)
    (hgroups : pg'.groups = pg.groups)
    (hroles : ∀ u, pg'.roleOf g u = if u = operator then some role' else pg.roleOf g u) :
    (c.Allows pg g role → c.Allows pg' g role') ↔ ¬ c.Inverts pg g role role' := by
  have hcases := (GroupRole.rank_lt_iff role role').mp hlt
  have hmember : role' ≠ .member := by
    obtain ⟨-, h⟩ | ⟨-, rfl⟩ := hcases
    · exact h
    · exact GroupRole.noConfusion
  cases c with
  | removeMember memIds => simp [Allows, Inverts, hmember]
  | changeMemberRole target newRole =>
    simp only [Allows, Inverts, not_false_iff, iff_true]
    obtain ⟨rfl, -⟩ | ⟨-, rfl⟩ := hcases
    · simp
    · simp
  | muteGroupMember u =>
    simp only [Allows, Inverts, hroles]
    by_cases hu : u = operator
    · subst hu
      obtain ⟨rfl, -⟩ | ⟨rfl, -⟩ := hcases
      · simp
      · simp [hrole]
    · rw [if_neg hu]
      obtain ⟨rfl, -⟩ | ⟨rfl, rfl⟩ := hcases
      · simp
      · grind
  | unmuteGroupMember u => simp [Allows, Inverts, hmember]
  | inviteNewMembers members =>
    simp only [Allows, Inverts, hgroups]
    cases pg.groups.find g with
    | none => simp
    | some row => simpa using GroupRole.text_le_monotone_iff hlt row.invitePermission
  | createAnnouncement => simp [Allows, Inverts, hmember]

end GroupCall

/-- Of two states that differ in the role of the operator, the one with the higher role
permits what the other permits, except where the names of the roles are compared: an owner
may not invite, unless owners may, and may not mute another owner. -/
theorem authority_monotone_iff (c : GroupCall) (g : GroupId) (a : UserId) (role role' : GroupRole)
    (w w' : World) (hrole : w.pg.roleOf g a = some role) (hlt : role.rank < role'.rank)
    (hw : w'.pg = w.pg.setRole g a role') :
    (c.Permitted g a w → c.Permitted g a w') ↔ ¬ c.Inverts w.pg g role role' := by
  have hmem : a ∈ w.pg.membersOf g := by
    obtain ⟨isMuted, hr⟩ := Postgres.roleOf_eq_some.mp hrole
    exact (Postgres.mem_membersOf _ _ _).mpr ⟨_, hr, rfl⟩
  obtain ⟨hgroups, hroles⟩ := Postgres.roleGiven_setRole role' hmem
  rw [← hw] at hgroups hroles
  have hrole' : w'.pg.roleOf g a = some role' := by rw [hroles, if_pos ⟨rfl, rfl⟩]
  rw [c.permitted_iff hrole, c.permitted_iff hrole']
  apply c.allows_monotone_iff hrole hlt hgroups
  intro u
  simp only [hroles, true_and]

/-- The administrator has become an owner. -/
def promoted : World := { chaired with pg := chaired.pg.setRole "g" "a" .owner }

theorem authority_monotone_iff_promoted :
    GroupCall.Permitted "g" "a" promoted (.removeMember ["m"]) := by
  have hadmin : chaired.pg.roleOf "g" "a" = some .admin := by decide
  have hmay : GroupCall.Permitted "g" "a" chaired (.removeMember ["m"]) := by
    show chaired.pg.isAdminOrOwner "g" "a" = true
    decide
  exact (authority_monotone_iff (.removeMember ["m"]) "g" "a" .admin .owner chaired promoted hadmin
    (by decide) rfl).mpr id hmay

/-- The administrator may invite, and once an owner no longer. -/
theorem authority_lost :
    ¬ ∀ (c : GroupCall) (g : GroupId) (a : UserId) (role role' : GroupRole) (w w' : World),
      w.pg.roleOf g a = some role → role.rank < role'.rank → w'.pg = w.pg.setRole g a role' →
      c.Permitted g a w → c.Permitted g a w' := by
  intro h
  have hadmin : chaired.pg.roleOf "g" "a" = some .admin := by decide
  have howner : promoted.pg.roleOf "g" "a" = some .owner := by decide
  have hmay : GroupCall.Permitted "g" "a" chaired (.inviteNewMembers ["m"]) := by
    rw [GroupCall.permitted_iff _ hadmin]
    exact ⟨⟨"g", "o", .admin⟩, by decide, by decide⟩
  have hmay' := h _ "g" "a" .admin .owner chaired promoted hadmin (by decide) rfl hmay
  rw [GroupCall.permitted_iff _ howner] at hmay'
  obtain ⟨row, hrow, hle⟩ := hmay'
  have hgroup : promoted.pg.groups.find "g" = some ⟨"g", "o", .admin⟩ := by decide
  rw [hgroup] at hrow
  cases hrow
  revert hle
  decide

end Sandcat
