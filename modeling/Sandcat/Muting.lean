import Sandcat.Ranks

/-!
# The two views of muting

A mute writes a record that runs until a time of its own and sets a flag of the member. An unmute ends
the records that still run and clears the flag. Nothing ties the two statements of a call together, and
nothing clears the flag when a record runs out. The clock is the one of the database.
-/

namespace Sandcat

structure MuteGroupMemberRequest where
  groupId : GroupId
  userId : UserId
  operatorId : UserId
  muteUntil : Int
  reason : String

/-- A row of `group_mute_records`. `mute_until` is in milliseconds. -/
structure GroupMuteRecord where
  id : String
  groupId : GroupId
  userId : UserId
  operatorId : UserId
  muteUntil : Int
  reason : String
  createdAt : Int

/-- `mute_until > extract(epoch from now()) * 1000`, the clock in microseconds. -/
def GroupMuteRecord.runs (now : Nat) (r : GroupMuteRecord) : Bool := (now : Int) < r.muteUntil * 1000

/-- `extract(epoch from now()) * 1000` in a column of whole numbers, which rounds it. -/
def epochMillis (now : Nat) : Nat := (now + 500) / 1000

/-- The record with `mute_until` set to the clock. -/
def GroupMuteRecord.endAt (now : Nat) (r : GroupMuteRecord) : GroupMuteRecord :=
  { r with muteUntil := epochMillis now }

/-- A violation of the key that points to `group_members`. -/
def foreignKeyViolation : Error :=
  .mk .dbError (some "insert or update on table violates foreign key constraint")

/-- The tables that muting writes. -/
structure MuteTables where
  pg : Postgres
  records : Table GroupMuteRecord.id

namespace MuteTables

/-- The queries of `mute_group_member` in front of its updates. -/
def checkMute (req : MuteGroupMemberRequest) (t : MuteTables) : Except Error Unit := do
  if !t.pg.isAdminOrOwner req.groupId req.operatorId then
    .error (.mk .unAuthorized (some "No permission to mute members"))
  else do
    let (targetRole, _) ← t.pg.fetchRole req.groupId req.userId
    let (operatorRole, _) ← t.pg.fetchRole req.groupId req.operatorId
    if targetRole.text ≤ operatorRole.text ∧ targetRole.text ≠ "Member" then
      .error (.mk .unAuthorized (some "Cannot mute higher or equal role"))
    else .ok ()

def insertRecord (id : String) (req : MuteGroupMemberRequest) (createdAt : Int) (t : MuteTables) :
    Except Error (GroupMuteRecord × MuteTables) :=
  let record : GroupMuteRecord :=
    { id, groupId := req.groupId, userId := req.userId, operatorId := req.operatorId,
      muteUntil := req.muteUntil, reason := req.reason, createdAt }
  match t.pg.groupMembers.find (req.groupId, req.userId), t.records.insert record with
  | some _, some records => .ok (record, { t with records })
  | none, _ => .error foreignKeyViolation
  | _, none => .error uniqueViolation

def setMuted (groupId : GroupId) (userId : UserId) (isMuted : Bool) (t : MuteTables) : MuteTables :=
  { t with pg := t.pg.setMuted groupId userId isMuted }

/-- The query of `unmute_group_member`. -/
def checkUnmute (groupId : GroupId) (operatorId : UserId) (t : MuteTables) : Except Error Unit :=
  if !t.pg.isAdminOrOwner groupId operatorId then
    .error (.mk .unAuthorized (some "No permission to unmute members"))
  else .ok ()

/-- `SET mute_until` of the records of a member that still run. -/
def endRecords (now : Nat) (groupId : GroupId) (userId : UserId) (t : MuteTables) : MuteTables :=
  { t with
    records := t.records.modify
      (fun r => decide (r.groupId = groupId) && decide (r.userId = userId) && r.runs now)
      (GroupMuteRecord.endAt now) fun _ => rfl }

def muteGroupMember (id : String) (createdAt : Int) (req : MuteGroupMemberRequest) (t : MuteTables) :
    Except Error (GroupMuteRecord × MuteTables) := do
  t.checkMute req
  let (record, t) ← t.insertRecord id req createdAt
  pure (record, t.setMuted req.groupId req.userId true)

def unmuteGroupMember (now : Nat) (groupId : GroupId) (userId operatorId : UserId) (t : MuteTables) :
    Except Error MuteTables := do
  t.checkUnmute groupId operatorId
  pure ((t.endRecords now groupId userId).setMuted groupId userId false)

def getGroupMutedMembers (now : Nat) (groupId : GroupId) (t : MuteTables) : List GroupMuteRecord :=
  (t.records.rows.filter fun r => decide (r.groupId = groupId) && r.runs now).mergeSort
    fun a b => b.createdAt ≤ a.createdAt

end MuteTables

/-- What a process is about to do: nothing, or the first or the second update of a call. -/
inductive MuteStage where
  | idle
  | recording (req : MuteGroupMemberRequest)
  | flagging (req : MuteGroupMemberRequest)
  | ending (groupId : GroupId) (userId : UserId)
  | clearing (groupId : GroupId) (userId : UserId)

/-- The clock, and the statements of the calls; `giveUp` is the failure of a call between two of them. -/
inductive MuteOp (ι : Type) where
  | tick (micros : Nat)
  | checkMute (i : ι) (req : MuteGroupMemberRequest)
  | insertRecord (i : ι) (id : String) (createdAt : Int)
  | setMuted (i : ι)
  | checkUnmute (i : ι) (groupId : GroupId) (userId operatorId : UserId)
  | endRecords (i : ι)
  | clearMuted (i : ι)
  | giveUp (i : ι)

/-- An update that a call has made for a member. -/
inductive MuteEvent where
  | recorded (muteUntil : Int)
  | flagged
  | ended (now : Nat)
  | cleared

/-- The tables, the clock, the processes, and what was done for each member, the latest first. -/
structure MuteRun (ι : Type) where
  tables : MuteTables
  now : Nat
  stages : ι → MuteStage
  events : GroupId × UserId → List MuteEvent

namespace MuteRun

variable {ι : Type} [DecidableEq ι]

def start (tables : MuteTables) (now : Nat) : MuteRun ι := ⟨tables, now, fun _ => .idle, fun _ => []⟩

def enter (i : ι) (stage : MuteStage) (s : MuteRun ι) : MuteRun ι :=
  { s with stages := Function.update s.stages i stage }

def log (groupId : GroupId) (userId : UserId) (event : MuteEvent) (s : MuteRun ι) : MuteRun ι :=
  { s with
    events := Function.update s.events (groupId, userId) (event :: s.events (groupId, userId)) }

/-- The effect of a statement. -/
def step (s : MuteRun ι) : MuteOp ι → MuteRun ι
  | .tick micros => { s with now := s.now + micros }
  | .checkMute i req =>
    match s.stages i, s.tables.checkMute req with
    | .idle, .ok () => s.enter i (.recording req)
    | _, _ => s
  | .insertRecord i id createdAt =>
    match s.stages i with
    | .recording req =>
      match s.tables.insertRecord id req createdAt with
      | .error _ => s.enter i .idle
      | .ok (_, tables) =>
        { s with tables }.enter i (.flagging req) |>.log req.groupId req.userId (.recorded req.muteUntil)
    | _ => s
  | .setMuted i =>
    match s.stages i with
    | .flagging req =>
      { s with tables := s.tables.setMuted req.groupId req.userId true }.enter i .idle
        |>.log req.groupId req.userId .flagged
    | _ => s
  | .checkUnmute i groupId userId operatorId =>
    match s.stages i, s.tables.checkUnmute groupId operatorId with
    | .idle, .ok () => s.enter i (.ending groupId userId)
    | _, _ => s
  | .endRecords i =>
    match s.stages i with
    | .ending groupId userId =>
      { s with tables := s.tables.endRecords s.now groupId userId }.enter i (.clearing groupId userId)
        |>.log groupId userId (.ended s.now)
    | _ => s
  | .clearMuted i =>
    match s.stages i with
    | .clearing groupId userId =>
      { s with tables := s.tables.setMuted groupId userId false }.enter i .idle
        |>.log groupId userId .cleared
    | _ => s
  | .giveUp i => s.enter i .idle

def run (s : MuteRun ι) (ops : List (MuteOp ι)) : MuteRun ι := ops.foldl step s

end MuteRun

/-- The flag of a member and the list of the muted members say the same. -/
def MuteViewsAgree {ι : Type} (groupId : GroupId) (userId : UserId) (s : MuteRun ι) : Prop :=
  (∃ row, s.tables.pg.groupMembers.find (groupId, userId) = some row ∧ row.isMuted = true) ↔
    ∃ r ∈ s.tables.getGroupMutedMembers s.now groupId, r.userId = userId

namespace MuteEvent

/-- The last update of the flag is that of a mute. -/
def Flagged : List MuteEvent → Prop
  | [] => False
  | .flagged :: _ => True
  | .cleared :: _ => False
  | .recorded _ :: events => Flagged events
  | .ended _ :: events => Flagged events

/-- A mute since the last unmute runs beyond `now`. An unmute leaves what it ends with the rest of half
a millisecond at most. -/
def Running (now : Nat) : List MuteEvent → Prop
  | [] => False
  | .recorded muteUntil :: events => (now : Int) < muteUntil * 1000 ∨ Running now events
  | .ended endedAt :: events => now < epochMillis endedAt * 1000 ∧ Running endedAt events
  | .flagged :: events => Running now events
  | .cleared :: events => Running now events

end MuteEvent

namespace GroupMuteRecord

variable {r : GroupMuteRecord} {now later : Nat}

theorem runs_iff : r.runs now = true ↔ (now : Int) < r.muteUntil * 1000 := decide_eq_true_iff

theorem runs_of_le (hlater : now ≤ later) (h : r.runs later = true) : r.runs now = true := by
  rw [runs_iff] at h ⊢
  omega

theorem runs_endAt (r : GroupMuteRecord) :
    (r.endAt now).runs later = true ↔ later < epochMillis now * 1000 := by
  rw [runs_iff]
  change (later : Int) < (epochMillis now : Int) * 1000 ↔ _
  omega

end GroupMuteRecord

namespace MuteTables

open Remote

variable {t t' : MuteTables} {g g' : GroupId} {u u' : UserId} {now : Nat}

/-- A record of the member runs. -/
def HasRunning (now : Nat) (g : GroupId) (u : UserId) (t : MuteTables) : Prop :=
  ∃ r ∈ t.records.rows, r.groupId = g ∧ r.userId = u ∧ r.runs now = true

/-- The checks and the flag are those of the call on the groups. -/
theorem exec_muteGroupMember (req : MuteGroupMemberRequest) {w : World} (hpg : w.pg = t.pg) :
    Prog.exec (Db.muteGroupMember req.groupId req.userId req.operatorId) w =
      match t.checkMute req with
      | .ok () => (.ok (), { w with pg := (t.setMuted req.groupId req.userId true).pg })
      | .error e => (.error e, w) := by
  rw [Db.exec_muteGroupMember, checkMute, hpg]
  cases hop : t.pg.isAdminOrOwner req.groupId req.operatorId with
  | false => rfl
  | true =>
    obtain ⟨role, hrole⟩ := Postgres.exists_role hop
    simp only [Postgres.fetchRole, hrole, Option.some.injEq]
    cases t.pg.roleOf req.groupId req.userId with
    | none => rfl
    | some target =>
      simp only [bind, Except.bind, Bool.not_true, Bool.false_eq_true, if_false, if_true,
        GroupRole.higher_or_equal_iff]
      split <;> rfl

theorem exec_unmuteGroupMember (g : GroupId) (u operatorId : UserId) {w : World}
    (hpg : w.pg = t.pg) :
    Prog.exec (Db.unmuteGroupMember g u operatorId) w =
      match t.checkUnmute g operatorId with
      | .ok () => (.ok (), { w with pg := (t.setMuted g u false).pg })
      | .error e => (.error e, w) := by
  rw [Db.exec_unmuteGroupMember, checkUnmute, hpg]
  cases t.pg.isAdminOrOwner g operatorId <;> rfl

theorem exists_mem_getGroupMutedMembers_iff :
    (∃ r ∈ t.getGroupMutedMembers now g, r.userId = u) ↔ t.HasRunning now g u := by
  simp only [getGroupMutedMembers, List.mem_mergeSort, List.mem_filter, Bool.and_eq_true,
    decide_eq_true_eq, HasRunning]
  constructor
  · rintro ⟨r, ⟨hr, hg, hruns⟩, hu⟩
    exact ⟨r, hr, hg, hu, hruns⟩
  · rintro ⟨r, hr, hg, hu, hruns⟩
    exact ⟨r, ⟨hr, hg, hruns⟩, hu⟩

theorem find_setMuted (isMuted : Bool) :
    (t.setMuted g' u' isMuted).pg.groupMembers.find (g, u) =
      if (g', u') = (g, u) then (t.pg.groupMembers.find (g, u)).map (GroupMemberRow.withMuted isMuted)
      else t.pg.groupMembers.find (g, u) := by
  refine (Table.find_modify _ _ (GroupMemberRow.withMuted isMuted) (fun _ => rfl) _).trans ?_
  cases h : t.pg.groupMembers.find (g, u) with
  | none => simp
  | some row =>
    obtain ⟨-, hkey⟩ := (Table.find_eq_some _ _ _).mp h
    by_cases he : (g', u') = (g, u)
    · rw [if_pos he, Option.map_some, hkey, he, decide_eq_true rfl, if_pos rfl, Option.map_some]
    · rw [if_neg he, Option.map_some, hkey, decide_eq_false (Ne.symm he)]
      rfl

/-- A mute that is recorded is one of a member. -/
theorem insertRecord_ok {id : String} {req : MuteGroupMemberRequest} {createdAt : Int}
    {record : GroupMuteRecord} (h : t.insertRecord id req createdAt = .ok (record, t')) :
    t'.pg = t.pg ∧ record.groupId = req.groupId ∧ record.userId = req.userId ∧
      record.muteUntil = req.muteUntil ∧ t'.records.rows = t.records.rows ++ [record] := by
  unfold insertRecord at h
  dsimp only at h
  split at h
  · rename_i records _ hinsert
    cases h
    exact ⟨rfl, rfl, rfl, rfl, (Table.insert_eq_some hinsert).2⟩
  · cases h
  · cases h

theorem hasRunning_append {record : GroupMuteRecord}
    (h : t'.records.rows = t.records.rows ++ [record]) : t'.HasRunning now g u ↔
      (record.groupId = g ∧ record.userId = u ∧ record.runs now = true) ∨ t.HasRunning now g u := by
  simp only [HasRunning, h, List.mem_append, List.mem_singleton, or_and_right, exists_or,
    exists_eq_left]
  exact or_comm

/-- What an unmute ends runs no longer than the clock rounds. -/
theorem hasRunning_endRecords {later : Nat} (hlater : now ≤ later) :
    (t.endRecords now g' u').HasRunning later g u ↔
      if (g', u') = (g, u) then later < epochMillis now * 1000 ∧ t.HasRunning now g u
      else t.HasRunning later g u := by
  constructor
  · rintro ⟨_, hmem, hg, hu, hruns⟩
    obtain ⟨r, hr, rfl⟩ := List.mem_map.mp hmem
    by_cases hsel : r.groupId = g' ∧ r.userId = u' ∧ r.runs now = true
    · rw [if_pos (by simp [hsel])] at hg hu hruns
      obtain ⟨hg', hu', hnow⟩ := hsel
      rw [if_pos (by rw [← hg', ← hu', ← hg, ← hu]; rfl)]
      exact ⟨(r.runs_endAt).mp hruns, r, hr, hg, hu, hnow⟩
    · rw [if_neg (by simpa using hsel)] at hg hu hruns
      split
      · rename_i he
        cases he
        exact absurd ⟨hg, hu, GroupMuteRecord.runs_of_le hlater hruns⟩ hsel
      · exact ⟨r, hr, hg, hu, hruns⟩
  · split
    · rename_i he
      cases he
      rintro ⟨hend, r, hr, hg, hu, hruns⟩
      refine ⟨r.endAt now, List.mem_map.mpr ⟨r, hr, if_pos (by simp [hg, hu, hruns])⟩, hg, hu, ?_⟩
      exact (r.runs_endAt).mpr hend
    · rename_i hne
      rintro ⟨r, hr, hg, hu, hruns⟩
      refine ⟨r, List.mem_map.mpr ⟨r, hr, if_neg ?_⟩, hg, hu, hruns⟩
      simp only [hg, hu, Bool.and_eq_true, decide_eq_true_eq]
      rintro ⟨⟨rfl, rfl⟩, -⟩
      exact hne rfl

end MuteTables

namespace MuteRun

open MuteEvent

variable {ι : Type} {s s' : MuteRun ι} {g : GroupId} {u : UserId}

/-- What a statement does to the row, the records and the history of a member. -/
inductive Effect (g : GroupId) (u : UserId) (s s' : MuteRun ι) : Prop where
  | kept (hnow : s.now ≤ s'.now)
      (hrow : s'.tables.pg.groupMembers.find (g, u) = s.tables.pg.groupMembers.find (g, u))
      (hrunning : ∀ later, s'.now ≤ later →
        (s'.tables.HasRunning later g u ↔ s.tables.HasRunning later g u))
      (hevents : s'.events (g, u) = s.events (g, u))
  | recorded (muteUntil : Int) (hnow : s'.now = s.now)
      (hrow : s'.tables.pg.groupMembers.find (g, u) = s.tables.pg.groupMembers.find (g, u))
      (hrunning : ∀ later : Nat, s'.tables.HasRunning later g u ↔
        (later : Int) < muteUntil * 1000 ∨ s.tables.HasRunning later g u)
      (hevents : s'.events (g, u) = .recorded muteUntil :: s.events (g, u))
  | ended (hnow : s'.now = s.now)
      (hrow : s'.tables.pg.groupMembers.find (g, u) = s.tables.pg.groupMembers.find (g, u))
      (hrunning : ∀ later, s.now ≤ later → (s'.tables.HasRunning later g u ↔
        later < epochMillis s.now * 1000 ∧ s.tables.HasRunning s.now g u))
      (hevents : s'.events (g, u) = .ended s.now :: s.events (g, u))
  | flag (isMuted : Bool) (hnow : s'.now = s.now)
      (hrow : s'.tables.pg.groupMembers.find (g, u) =
        (s.tables.pg.groupMembers.find (g, u)).map (GroupMemberRow.withMuted isMuted))
      (hrecords : s'.tables.records = s.tables.records)
      (hevents : s'.events (g, u) = (if isMuted then .flagged else .cleared) :: s.events (g, u))

theorem effect_kept (htables : s'.tables = s.tables) (hnow : s.now ≤ s'.now)
    (hevents : s'.events = s.events) : Effect g u s s' :=
  .kept hnow (by rw [htables]) (fun _ _ => by rw [htables]) (by rw [hevents])

theorem events_log (g' : GroupId) (u' : UserId) (event : MuteEvent) :
    (s.log g' u' event).events (g, u) =
      if (g', u') = (g, u) then event :: s.events (g, u) else s.events (g, u) := by
  by_cases he : (g', u') = (g, u)
  · cases he
    rw [if_pos rfl]
    exact Function.update_self ..
  · rw [if_neg he]
    exact Function.update_of_ne (Ne.symm he) ..

/-- The history of a member tells the flag, and which records run from here on. -/
structure Tracks (g : GroupId) (u : UserId) (s : MuteRun ι) : Prop where
  flag : ∃ row, s.tables.pg.groupMembers.find (g, u) = some row ∧
    (row.isMuted = true ↔ Flagged (s.events (g, u)))
  running : ∀ later, s.now ≤ later →
    (s.tables.HasRunning later g u ↔ Running later (s.events (g, u)))

theorem tracks_effect (h : Tracks g u s) (heffect : Effect g u s s') : Tracks g u s' := by
  obtain ⟨row, hrow, hflag⟩ := h.flag
  cases heffect with
  | kept hnow hrow' hrunning hevents =>
    refine ⟨⟨row, hrow'.trans hrow, ?_⟩, fun later hlater => ?_⟩
    · rw [hevents]
      exact hflag
    · rw [hevents, hrunning later hlater]
      exact h.running later (hnow.trans hlater)
  | recorded muteUntil hnow hrow' hrunning hevents =>
    refine ⟨⟨row, hrow'.trans hrow, ?_⟩, fun later hlater => ?_⟩
    · rw [hevents]
      exact hflag
    · rw [hevents, hrunning later, Running, h.running later (hnow ▸ hlater)]
  | ended hnow hrow' hrunning hevents =>
    refine ⟨⟨row, hrow'.trans hrow, ?_⟩, fun later hlater => ?_⟩
    · rw [hevents]
      exact hflag
    · rw [hevents, hrunning later (hnow ▸ hlater), Running, h.running s.now le_rfl]
  | flag isMuted hnow hrow' hrecords hevents =>
    rw [hrow, Option.map_some] at hrow'
    refine ⟨⟨_, hrow', ?_⟩, fun later hlater => ?_⟩
    · rw [hevents]
      cases isMuted <;> simp [GroupMemberRow.withMuted, Flagged]
    · have hrunning : s'.tables.HasRunning later g u ↔ s.tables.HasRunning later g u := by
        rw [MuteTables.HasRunning, hrecords, MuteTables.HasRunning]
      rw [hevents, hrunning, h.running later (hnow ▸ hlater)]
      cases isMuted <;> rfl

theorem Tracks.agree_iff (h : Tracks g u s) :
    MuteViewsAgree g u s ↔ (Flagged (s.events (g, u)) ↔ Running s.now (s.events (g, u))) := by
  obtain ⟨row, hrow, hflag⟩ := h.flag
  unfold MuteViewsAgree
  rw [MuteTables.exists_mem_getGroupMutedMembers_iff, h.running s.now le_rfl, hrow, ← hflag]
  simp

variable [DecidableEq ι]

/-- An update of the flag, which is one of the member or one of another. -/
theorem effect_setMuted (i : ι) (g' : GroupId) (u' : UserId) (isMuted : Bool) {event : MuteEvent}
    (hevent : event = if isMuted then .flagged else .cleared) :
    Effect g u s
      (({ s with tables := s.tables.setMuted g' u' isMuted }.enter i .idle).log g' u' event) := by
  have hfind : (s.tables.setMuted g' u' isMuted).pg.groupMembers.find (g, u) = _ :=
    MuteTables.find_setMuted isMuted
  have hevents := events_log (s := { s with tables := s.tables.setMuted g' u' isMuted }.enter i .idle)
    (g := g) (u := u) g' u' event
  by_cases he : (g', u') = (g, u)
  · rw [if_pos he] at hfind hevents
    exact .flag isMuted rfl hfind rfl (by rw [hevents, hevent]; rfl)
  · rw [if_neg he] at hfind hevents
    exact .kept le_rfl hfind (fun _ _ => Iff.rfl) hevents

theorem effect_step (op : MuteOp ι) : Effect g u s (s.step op) := by
  cases op with
  | tick micros => exact effect_kept rfl (Nat.le_add_right _ _) rfl
  | checkMute i req =>
    simp only [step]
    split
    · exact effect_kept rfl le_rfl rfl
    · exact effect_kept rfl le_rfl rfl
  | insertRecord i id createdAt =>
    simp only [step]
    split
    · rename_i req hstage
      cases hinsert : s.tables.insertRecord id req createdAt with
      | error e => exact effect_kept rfl le_rfl rfl
      | ok result =>
        obtain ⟨record, tables⟩ := result
        obtain ⟨hpg, hg, hu, huntil, hrows⟩ := MuteTables.insertRecord_ok hinsert
        have hevents := events_log (s := { s with tables }.enter i (.flagging req))
          (g := g) (u := u) req.groupId req.userId (.recorded req.muteUntil)
        have hrow : tables.pg.groupMembers.find (g, u) = s.tables.pg.groupMembers.find (g, u) := by
          rw [hpg]
        by_cases he : (req.groupId, req.userId) = (g, u)
        · rw [if_pos he] at hevents
          cases he
          refine .recorded req.muteUntil rfl hrow (fun later => ?_) hevents
          refine (MuteTables.hasRunning_append hrows).trans ?_
          simp [hg, hu, GroupMuteRecord.runs_iff, huntil]
        · rw [if_neg he] at hevents
          refine .kept le_rfl hrow (fun later _ => ?_) hevents
          refine (MuteTables.hasRunning_append hrows).trans (or_iff_right ?_)
          rintro ⟨hg', hu', -⟩
          exact he (by rw [← hg, ← hu, hg', hu'])
    · exact effect_kept rfl le_rfl rfl
  | setMuted i =>
    simp only [step]
    split
    · exact effect_setMuted i _ _ true rfl
    · exact effect_kept rfl le_rfl rfl
  | checkUnmute i groupId userId operatorId =>
    simp only [step]
    split
    · exact effect_kept rfl le_rfl rfl
    · exact effect_kept rfl le_rfl rfl
  | endRecords i =>
    simp only [step]
    split
    · rename_i g' u' hstage
      have hevents := events_log
        (s := { s with tables := s.tables.endRecords s.now g' u' }.enter i (.clearing g' u'))
        (g := g) (u := u) g' u' (.ended s.now)
      have hrunning : ∀ later, s.now ≤ later →
          ((s.tables.endRecords s.now g' u').HasRunning later g u ↔ _) :=
        fun later => MuteTables.hasRunning_endRecords
      by_cases he : (g', u') = (g, u)
      · simp only [if_pos he] at hevents hrunning
        exact .ended rfl rfl hrunning hevents
      · simp only [if_neg he] at hevents hrunning
        exact .kept le_rfl rfl hrunning hevents
    · exact effect_kept rfl le_rfl rfl
  | clearMuted i =>
    simp only [step]
    split
    · exact effect_setMuted i _ _ false rfl
    · exact effect_kept rfl le_rfl rfl
  | giveUp i => exact effect_kept rfl le_rfl rfl

theorem tracks_run (h : Tracks g u s) (ops : List (MuteOp ι)) : Tracks g u (s.run ops) := by
  induction ops generalizing s with
  | nil => exact h
  | cons op ops ih => exact ih (tracks_effect h (effect_step op))

/-- A mute with nothing in between. -/
theorem run_muteGroupMember {i : ι} {id : String} {createdAt : Int} {req : MuteGroupMemberRequest}
    {record : GroupMuteRecord} {t : MuteTables} (hidle : s.stages i = .idle)
    (h : s.tables.muteGroupMember id createdAt req = .ok (record, t)) :
    let s' := s.run [.checkMute i req, .insertRecord i id createdAt, .setMuted i]
    s'.tables = t ∧ s'.now = s.now ∧ s'.events (req.groupId, req.userId) =
      .flagged :: .recorded req.muteUntil :: s.events (req.groupId, req.userId) := by
  unfold MuteTables.muteGroupMember at h
  cases hcheck : s.tables.checkMute req with
  | error e =>
    rw [hcheck] at h
    cases h
  | ok _ =>
    cases hinsert : s.tables.insertRecord id req createdAt with
    | error e =>
      rw [hcheck, hinsert] at h
      cases h
    | ok result =>
      rw [hcheck, hinsert] at h
      cases h
      simp [run, step, hidle, hcheck, hinsert, enter, log]

/-- An unmute with nothing in between. -/
theorem run_unmuteGroupMember {i : ι} {operatorId : UserId} {t : MuteTables}
    (hidle : s.stages i = .idle) (h : s.tables.unmuteGroupMember s.now g u operatorId = .ok t) :
    let s' := s.run [.checkUnmute i g u operatorId, .endRecords i, .clearMuted i]
    s'.tables = t ∧ s'.now = s.now ∧
      s'.events (g, u) = .cleared :: .ended s.now :: s.events (g, u) := by
  unfold MuteTables.unmuteGroupMember at h
  cases hcheck : s.tables.checkUnmute g operatorId with
  | error e =>
    rw [hcheck] at h
    cases h
  | ok _ =>
    rw [hcheck] at h
    cases h
    simp [run, step, hidle, hcheck, enter, log]

/-- After a mute the views agree as long as it runs, or one before it. -/
theorem agree_after_mute {i : ι} {id : String} {createdAt : Int} {req : MuteGroupMemberRequest}
    {record : GroupMuteRecord} {t : MuteTables} (h : Tracks req.groupId req.userId s)
    (hidle : s.stages i = .idle)
    (hmute : s.tables.muteGroupMember id createdAt req = .ok (record, t)) (micros : Nat) :
    MuteViewsAgree req.groupId req.userId
        ((s.run [.checkMute i req, .insertRecord i id createdAt, .setMuted i]).step (.tick micros)) ↔
      ((s.now + micros : Nat) : Int) < req.muteUntil * 1000 ∨
        Running (s.now + micros) (s.events (req.groupId, req.userId)) := by
  obtain ⟨-, hnow, hevents⟩ := run_muteGroupMember hidle hmute
  refine (tracks_effect (tracks_run h _) (effect_step (.tick micros))).agree_iff.trans ?_
  simp only [step, hnow, hevents, Flagged, Running, true_iff]

/-- After an unmute they agree from the next whole millisecond on. -/
theorem agree_after_unmute {i : ι} {operatorId : UserId} {t : MuteTables} (h : Tracks g u s)
    (hidle : s.stages i = .idle) (hunmute : s.tables.unmuteGroupMember s.now g u operatorId = .ok t)
    (micros : Nat) :
    MuteViewsAgree g u
        ((s.run [.checkUnmute i g u operatorId, .endRecords i, .clearMuted i]).step (.tick micros)) ↔
      ¬(s.now + micros < epochMillis s.now * 1000 ∧ Running s.now (s.events (g, u))) := by
  obtain ⟨-, hnow, hevents⟩ := run_unmuteGroupMember hidle hunmute
  refine (tracks_effect (tracks_run h _) (effect_step (.tick micros))).agree_iff.trans ?_
  simp only [step, hnow, hevents, Flagged, Running, false_iff]

end MuteRun

/-- A member as it joins, whose flag is not set and who has no record. -/
structure MuteTables.Joined (groupId : GroupId) (userId : UserId) (t : MuteTables) : Prop where
  row : ∃ row, t.pg.groupMembers.find (groupId, userId) = some row ∧ row.isMuted = false
  records : ∀ r ∈ t.records.rows, r.groupId = groupId → r.userId ≠ userId

theorem tracks_start {ι : Type} {t : MuteTables} {groupId : GroupId} {userId : UserId}
    (h : t.Joined groupId userId) (now : Nat) :
    MuteRun.Tracks groupId userId (.start t now : MuteRun ι) := by
  obtain ⟨row, hrow, hmuted⟩ := h.row
  refine ⟨⟨row, hrow, ?_⟩, fun later _ => ?_⟩
  · simp [MuteRun.start, MuteEvent.Flagged, hmuted]
  · simp only [MuteRun.start, MuteEvent.Running, iff_false]
    rintro ⟨r, hr, hg, hu, -⟩
    exact h.records r hr hg hu

/-- The two views of a member agree, at any moment of any run, if and only if the last update of the
flag is that of a mute just when a mute since the last unmute runs beyond that moment. -/
theorem mute_views_agree_iff {ι : Type} [DecidableEq ι] {tables : MuteTables} {groupId : GroupId}
    {userId : UserId} (h : tables.Joined groupId userId) (now : Nat) (ops : List (MuteOp ι)) :
    let s := (MuteRun.start tables now).run ops
    MuteViewsAgree groupId userId s ↔ (MuteEvent.Flagged (s.events (groupId, userId)) ↔
      MuteEvent.Running s.now (s.events (groupId, userId))) := by
  intro s
  have htracks : MuteRun.Tracks groupId userId s := MuteRun.tracks_run (tracks_start h now) ops
  exact htracks.agree_iff

/-- The group before anybody is muted. -/
def nobodyMuted : MuteTables := ⟨chaired.pg, ∅⟩

/-- A mute of the member for one second. -/
def muteForASecond : List (MuteOp Unit) :=
  [.checkMute () ⟨"g", "m", "o", 1000, ""⟩, .insertRecord () "r" 0, .setMuted ()]

theorem joined_nobodyMuted : nobodyMuted.Joined "g" "m" :=
  ⟨⟨_, rfl, rfl⟩, fun _ hr => absurd hr (List.not_mem_nil)⟩

theorem mute_views_agree_muted :
    MuteViewsAgree "g" "m" ((MuteRun.start nobodyMuted 0).run muteForASecond) := by
  refine (mute_views_agree_iff joined_nobodyMuted 0 muteForASecond).mpr ?_
  have hevents : ((MuteRun.start nobodyMuted 0).run muteForASecond).events ("g", "m") =
      [.flagged, .recorded 1000] := rfl
  rw [hevents]
  exact iff_of_true trivial (.inl (by decide))

/-- When the second is over the flag is still set, and no record runs. -/
theorem mute_views_disagree : ¬ MuteViewsAgree "g" "m"
    ((MuteRun.start nobodyMuted 0).run (muteForASecond ++ [.tick 1000000])) := by
  intro h
  obtain ⟨r, hr, hg, hu, hruns⟩ :=
    MuteTables.exists_mem_getGroupMutedMembers_iff.mp (h.mp ⟨_, rfl, rfl⟩)
  cases hr with
  | head => exact absurd (GroupMuteRecord.runs_iff.mp hruns) (by decide)
  | tail _ hr => cases hr

end Sandcat
