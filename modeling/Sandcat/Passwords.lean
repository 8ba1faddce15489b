import Mathlib.Logic.Function.Basic
import Sandcat.Postgres
import Sandcat.RegisterCodes
import Sandcat.Lib.Tickets

/-!
# Password resets

A reset names a user and an address, and its code is looked up under the address alone. The code
stays, so that it serves again until it is replaced or its hash is gone. Requests are followed
through all orders of their calls.
-/

namespace Sandcat

structure User where
  id : UserId
  name : String
  account : String
  password : String
  salt : String
  email : Option String
  avatar : String
  deriving DecidableEq

structure UserRegister where
  avatar : String
  name : String
  password : String
  email : String
  code : String

structure UserUpdate where
  id : UserId
  name : String
  avatar : String
  email : String

structure ModifyPwdRequest where
  userId : UserId
  email : String
  pwd : String
  code : String

/-- The hashing of passwords with a salt, their base64 form in a request, and the first block. -/
structure UserConfig where
  hashPassword : String → String → Except Error String
  decodePwd : String → Except Error String
  initMaxSeq : Int

/-- The codes, and what `create_user` writes in the database. -/
structure Site where
  codes : CodeKey
  users : Table User.id
  sequence : Table SeqRow.userId

/-- `ModifyPwdRequest::decode`. -/
def ModifyPwdRequest.decode (cfg : UserConfig) (req : ModifyPwdRequest) :
    Except Error ModifyPwdRequest :=
  if req.userId = "" ∨ req.email = "" ∨ req.pwd = "" ∨ req.code = "" then
    .error (.mk .badRequest (some "parameter is none"))
  else (cfg.decodePwd req.pwd).map fun pwd => { req with pwd }

/-- `COALESCE(NULLIF(value, ''), old)` for the columns of `update_user`. -/
def User.updated (update : UserUpdate) (user : User) : User :=
  { user with
    name := if update.name = "" then user.name else update.name
    avatar := if update.avatar = "" then user.avatar else update.avatar
    email := if update.email = "" then user.email else some update.email }

/-- `SET salt = $2, password = $3`. -/
def User.withPassword (salt password : String) (user : User) : User := { user with salt, password }

namespace Site

/-- The check of a code, with the details of its two refusals. -/
def checkCode (now : Int) (email code expired invalid : String) (s : Site) : Except Error Unit :=
  match s.codes.getRegisterCode now email with
  | none => .error (.mk .codeIsExpired (some expired))
  | some c => if c ≠ code then .error (.mk .codeIsInvalid (some invalid)) else .ok ()

/-- The user of a registration, and its insertion with a row of `sequence` in one transaction. -/
def createUser (cfg : UserConfig) (id : UserId) (salt : String) (new : UserRegister) (s : Site) :
    Except Error (User × Site) :=
  match cfg.hashPassword new.password salt with
  | .error e => .error e
  | .ok password =>
    let user := ⟨id, new.name, id, password, salt, some new.email, new.avatar⟩
    match s.users.insert user, s.sequence.insert ⟨id, cfg.initMaxSeq, cfg.initMaxSeq⟩ with
    | some users, some sequence => .ok (user, { s with users, sequence })
    | _, _ => .error uniqueViolation

/-- `update_user`. -/
def updateUser (update : UserUpdate) (s : Site) : Except Error (User × Site) :=
  match s.users.find update.id with
  | none => .error rowNotFound
  | some user =>
    let users := s.users.modify (fun u => u.id = update.id) (User.updated update) fun _ => rfl
    .ok (user.updated update, { s with users })

/-- The first statement of `modify_pwd`. -/
def selectUser (id : UserId) (s : Site) : Except Error User :=
  match s.users.find id with
  | none => .error rowNotFound
  | some user => .ok user

/-- The second one, for a user that was read; `salt` is drawn for a user that has none. -/
def modifyPwd (cfg : UserConfig) (req : ModifyPwdRequest) (user : User) (salt : String) (s : Site) :
    Except Error Site :=
  let salt := if user.salt = "" then salt else user.salt
  match cfg.hashPassword req.pwd salt with
  | .error e => .error e
  | .ok password =>
    let users := s.users.modify (fun u => u.id = req.userId) (User.withPassword salt password)
      fun _ => rfl
    .ok { s with users }

end Site

/-- What a process is about to do: nothing, the insertion or the deletion of `create_user`, or
one of the two statements of `modify_pwd`. -/
inductive RequestStage where
  | idle
  | inserting (new : UserRegister)
  | deleting (email : String)
  | selecting (req : ModifyPwdRequest)
  | hashing (req : ModifyPwdRequest) (user : User)

/-- The address and the code of a request whose code was right. -/
def RequestStage.code : RequestStage → Option (String × String)
  | inserting new => some (new.email, new.code)
  | selecting req => some (req.email, req.code)
  | hashing req _ => some (req.email, req.code)
  | idle => none
  | deleting _ => none

/-- A reset is on its way. -/
def RequestStage.reset : RequestStage → Bool
  | selecting _ | hashing _ _ => true
  | _ => false

/-- The calls of the requests. A request begins with the check of its code, and `giveUp` is its
failure at any later point. -/
inductive AccountOp (ι : Type) where
  | sendEmail (email num : String)
  | updateUser (update : UserUpdate)
  | createUser (i : ι) (new : UserRegister)
  | insertUser (i : ι) (id : UserId) (salt : String)
  | delRegisterCode (i : ι)
  | modifyPwd (i : ι) (req : ModifyPwdRequest)
  | selectUser (i : ι)
  | savePwd (i : ι) (salt : String)
  | giveUp (i : ι)

/-- A request that the lookup of its code let in: the address, the number of codes issued to the address by
then, and whether the request is a reset. -/
structure Clearance where
  email : String
  number : Nat
  reset : Bool
  deriving DecidableEq

namespace Clearance

/-- The code, told apart from the later ones to its address. -/
def issue (a : Clearance) : String × Nat := (a.email, a.number)

/-- Two requests that were let in by one code are registrations. -/
def Apart (a b : Clearance) : Prop := a.issue = b.issue → a.reset = false ∧ b.reset = false

theorem Apart.symm {a b : Clearance} (h : a.Apart b) : b.Apart a := fun he => (h he.symm).symm

end Clearance

/-- The code that lets a request succeed: the address it was looked up under, its text, the
number of codes issued to the address by then, and the number of requests let in by then. For a reset there is
the user, with the address stored for it. -/
structure Approval where
  email : String
  code : String
  number : Nat
  index : Nat
  reset : Option (UserId × Option String)

namespace Approval

/-- An issued code. -/
def issue (a : Approval) : String × Nat := (a.email, a.number)

def clearance (a : Approval) : Clearance := ⟨a.email, a.number, a.reset.isSome⟩

end Approval

/-- The state of the program, and a record of what was done: the codes issued, the requests let in,
for each process what the record was when it checked its code, and the successes. -/
structure Accounts (ι : Type) where
  site : Site
  stages : ι → RequestStage
  issued : List (String × String)
  checks : ι → Nat × Nat
  admitted : List Clearance
  approvals : List Approval

namespace Accounts

variable {ι : Type}

/-- No code was issued, and no request is on its way. -/
def start (users : Table User.id) (sequence : Table SeqRow.userId) : Accounts ι :=
  ⟨⟨none, users, sequence⟩, fun _ => .idle, [], fun _ => (0, 0), [], []⟩

/-- How many codes were issued to an address. -/
def number (s : Accounts ι) (email : String) : Nat := s.issued.countP fun p => p.1 = email

/-- `save_register_code`, and the record of it. -/
def issue (now : Int) (email num : String) (s : Accounts ι) : Accounts ι :=
  { s with
    site := { s.site with codes := s.site.codes.saveRegisterCode now email num }
    issued := s.issued ++ [(email, num)] }

def delete (now : Int) (email : String) (s : Accounts ι) : Accounts ι :=
  { s with site := { s.site with codes := s.site.codes.delRegisterCode now email } }

/-- The code that a process holds: the place of its request among those let in, and the request. -/
def held (s : Accounts ι) (i : ι) : Option (Nat × Clearance) :=
  (s.stages i).code.map fun c => ((s.checks i).2, ⟨c.1, (s.checks i).1, (s.stages i).reset⟩)

/-- The successes by the places of their requests. -/
def spent (s : Accounts ι) : List (Nat × Clearance) := s.approvals.map fun a => (a.index, a.clearance)

/-- What holds of every run: a code that can be read was issued to its address, and so was the code of a
request on its way. -/
structure Inv (s : Accounts ι) : Prop where
  readable : ∀ t email code, s.site.codes.getRegisterCode t email = some code → (email, code) ∈ s.issued
  checked : ∀ i email code, (s.stages i).code = some (email, code) → (email, code) ∈ s.issued

section Kept

variable {now : Int} {s : Accounts ι}

theorem inv_start (users : Table User.id) (sequence : Table SeqRow.userId) :
    (start users sequence : Accounts ι).Inv := by
  refine ⟨fun t email code h => ?_, fun i email code h => ?_⟩
  · cases h
  · cases h

theorem Inv.withSite (h : s.Inv) {site : Site} (hcodes : site.codes = s.site.codes) :
    { s with site }.Inv := by
  refine ⟨?_, h.checked⟩
  intro t email code hread
  dsimp only at hread
  rw [hcodes] at hread
  exact h.readable t email code hread

theorem inv_issue (h : s.Inv) (email num : String) : (s.issue now email num).Inv := by
  refine ⟨?_, fun i e code hi => List.mem_append_left _ (h.checked i e code hi)⟩
  intro t e code hread
  rw [issue, CodeKey.getRegisterCode_save] at hread
  split at hread
  · split at hread
    · rename_i he
      cases hread
      subst he
      exact List.mem_append_right _ List.mem_cons_self
    · exact List.mem_append_left _ (h.readable now e code hread)
  · cases hread

theorem inv_delete (h : s.Inv) (email : String) : (s.delete now email).Inv := by
  refine ⟨?_, h.checked⟩
  intro t e code hread
  exact h.readable t e code (CodeKey.of_getRegisterCode_del hread).2

end Kept

/-- The success that a call is. -/
def approval (cfg : UserConfig) (s : Accounts ι) : AccountOp ι → Option Approval
  | .insertUser i id salt =>
    match s.stages i with
    | .inserting new =>
      match s.site.createUser cfg id salt new with
      | .error _ => none
      | .ok _ => some ⟨new.email, new.code, (s.checks i).1, (s.checks i).2, none⟩
    | _ => none
  | .savePwd i salt =>
    match s.stages i with
    | .hashing req user =>
      match s.site.modifyPwd cfg req user salt, s.site.users.find req.userId with
      | .ok _, some u =>
        some ⟨req.email, req.code, (s.checks i).1, (s.checks i).2, some (req.userId, u.email)⟩
      | _, _ => none
    | _ => none
  | _ => none

/-- The request that a call lets in: the process is free, and the hash holds the code of the request. -/
def clearance (cfg : UserConfig) (now : Int) (s : Accounts ι) : AccountOp ι → Option Clearance
  | .createUser i new =>
    match s.stages i with
    | .idle =>
      if s.site.codes.getRegisterCode now new.email = some new.code then
        some ⟨new.email, s.number new.email, false⟩
      else none
    | _ => none
  | .modifyPwd i req =>
    match s.stages i, req.decode cfg with
    | .idle, .ok req =>
      if s.site.codes.getRegisterCode now req.email = some req.code then
        some ⟨req.email, s.number req.email, true⟩
      else none
    | _, _ => none
  | _ => none

/-- A reset that succeeds reads the address stored for its user. -/
theorem approval_reset {cfg : UserConfig} {s : Accounts ι} {op : AccountOp ι} {a : Approval} {u : UserId} {stored : Option String}
    (h : s.approval cfg op = some a) (hreset : a.reset = some (u, stored)) :
    ∃ i salt req user r, op = .savePwd i salt ∧ s.stages i = .hashing req user ∧
      s.site.users.find req.userId = some r ∧ r.email = stored ∧ a.email = req.email := by
  cases op with
  | insertUser i id salt =>
    simp only [approval] at h
    split at h
    · split at h
      · cases h
      · cases h
        cases hreset
    · cases h
  | savePwd i salt =>
    simp only [approval] at h
    split at h
    · rename_i req user hstage
      split at h
      · rename_i r _ hfind
        cases h
        cases hreset
        exact ⟨i, salt, req, user, r, rfl, hstage, hfind, rfl, rfl⟩
      · cases h
    · cases h
  | _ => cases h

/-- Every password was reset with a code that had been issued to the address stored. -/
def ToOwner (s : Accounts ι) : Prop :=
  ∀ a ∈ s.approvals, ∀ u stored, a.reset = some (u, stored) →
    ∃ email, stored = some email ∧ (email, a.code) ∈ s.issued

/-- A code with which a password was reset has no other success. -/
def Once (s : Accounts ι) : Prop :=
  s.approvals.Pairwise fun a b => a.issue = b.issue → a.reset = none ∧ b.reset = none

/-- Where no code lets two requests in, none has two successes. -/
theorem once_of_apart {s : Accounts ι} (h : Tickets s.held s.admitted s.spent)
    (hadmitted : s.admitted.Pairwise Clearance.Apart) : s.Once := by
  have hspent := h.pairwise (fun a b hab => hab.symm) hadmitted
  refine (List.pairwise_map.mp hspent).imp ?_
  intro a b hab he
  have hresets := hab he
  simpa only [Approval.clearance, Option.isSome_eq_false_iff, Option.isNone_iff_eq_none] using hresets

variable [DecidableEq ι]

def enter (i : ι) (stage : RequestStage) (s : Accounts ι) : Accounts ι :=
  { s with stages := Function.update s.stages i stage }

/-- A code was right, and the request goes on. -/
def accept (i : ι) (email : String) (stage : RequestStage) (s : Accounts ι) : Accounts ι :=
  { s.enter i stage with checks := Function.update s.checks i (s.number email, s.admitted.length) }

/-- The effect of a call at an instant. -/
def act (cfg : UserConfig) (now : Int) (s : Accounts ι) : AccountOp ι → Accounts ι
  | .sendEmail email num => if email = "" then s else s.issue now email num
  | .updateUser update =>
    match s.site.updateUser update with
    | .error _ => s
    | .ok (_, site) => { s with site }
  | .createUser i new =>
    match s.stages i, s.site.checkCode now new.email new.code "in register" "in register" with
    | .idle, .ok () => s.accept i new.email (.inserting new)
    | _, _ => s
  | .insertUser i id salt =>
    match s.stages i with
    | .inserting new =>
      match s.site.createUser cfg id salt new with
      | .error _ => s.enter i .idle
      | .ok (_, site) => { s.enter i (.deleting new.email) with site }
    | _ => s
  | .delRegisterCode i =>
    match s.stages i with
    | .deleting email => (s.delete now email).enter i .idle
    | _ => s
  | .modifyPwd i req =>
    match s.stages i, req.decode cfg with
    | .idle, .ok req =>
      match s.site.checkCode now req.email req.code "code is expired" "code is invalid" with
      | .error _ => s
      | .ok () => s.accept i req.email (.selecting req)
    | _, _ => s
  | .selectUser i =>
    match s.stages i with
    | .selecting req =>
      match s.site.selectUser req.userId with
      | .error _ => s.enter i .idle
      | .ok user => s.enter i (.hashing req user)
    | _ => s
  | .savePwd i salt =>
    match s.stages i with
    | .hashing req user =>
      match s.site.modifyPwd cfg req user salt with
      | .error _ => s.enter i .idle
      | .ok site => { s.enter i .idle with site }
    | _ => s
  | .giveUp i => s.enter i .idle

/-- A call, with the request that it lets in and its success recorded. -/
def step (cfg : UserConfig) (now : Int) (s : Accounts ι) (op : AccountOp ι) : Accounts ι :=
  { s.act cfg now op with
    admitted := s.admitted ++ (s.clearance cfg now op).toList
    approvals := s.approvals ++ (s.approval cfg op).toList }

variable {cfg : UserConfig} {now : Int} {s : Accounts ι} {i : ι} {op : AccountOp ι}

/-- A process goes on with the code that it has, or with none. -/
theorem inv_enter (h : s.Inv) {stage : RequestStage}
    (hcode : ∀ p, stage.code = some p → (s.stages i).code = some p) : (s.enter i stage).Inv := by
  refine ⟨h.readable, ?_⟩
  intro j email code hj
  by_cases hij : j = i
  · subst hij
    refine h.checked j email code (hcode _ ?_)
    simpa [enter] using hj
  · exact h.checked j email code (by simpa [enter, hij] using hj)

/-- A process goes on with a code that it has read. -/
theorem inv_accept (h : s.Inv) {email code : String} {stage : RequestStage}
    (hread : s.site.codes.getRegisterCode now email = some code)
    (hstage : stage.code = some (email, code)) : (s.accept i email stage).Inv := by
  refine ⟨h.readable, ?_⟩
  intro j email' code' hj
  by_cases hij : j = i
  · subst hij
    have hsame : stage.code = some (email', code') := by simpa [accept, enter] using hj
    rw [hstage] at hsame
    cases hsame
    exact h.readable now email code hread
  · exact h.checked j email' code' (by simpa [accept, enter, hij] using hj)

/-- A code is right if and only if the hash holds it. -/
theorem checkCode_ok_iff {site : Site} {email code expired invalid : String} :
    site.checkCode now email code expired invalid = .ok () ↔
      site.codes.getRegisterCode now email = some code := by
  unfold Site.checkCode
  cases site.codes.getRegisterCode now email with
  | none => simp
  | some c => by_cases hcode : c = code <;> simp [hcode]

theorem codes_createUser {id : UserId} {salt : String} {new : UserRegister} {site site' : Site}
    {user : User} (h : site.createUser cfg id salt new = .ok (user, site')) :
    site'.codes = site.codes := by
  unfold Site.createUser at h
  split at h
  · cases h
  · dsimp only at h
    split at h
    · cases h
      rfl
    · cases h

theorem codes_updateUser {update : UserUpdate} {site site' : Site} {user : User}
    (h : site.updateUser update = .ok (user, site')) : site'.codes = site.codes := by
  unfold Site.updateUser at h
  split at h
  · cases h
  · cases h
    rfl

theorem codes_modifyPwd {req : ModifyPwdRequest} {user : User} {salt : String} {site site' : Site}
    (h : site.modifyPwd cfg req user salt = .ok site') : site'.codes = site.codes := by
  unfold Site.modifyPwd at h
  dsimp only at h
  split at h
  · cases h
  · cases h
    rfl

theorem inv_act (h : s.Inv) (op : AccountOp ι) : (s.act cfg now op).Inv := by
  have hidle : ∀ i, (s.enter i .idle).Inv := fun i => inv_enter h fun p hp => by cases hp
  cases op with
  | sendEmail email num =>
    rw [act]
    split
    · exact h
    · exact inv_issue h email num
  | updateUser update =>
    rw [act]
    split
    · exact h
    · rename_i hupdate
      exact h.withSite (codes_updateUser hupdate)
  | createUser i new =>
    rw [act]
    split
    · rename_i hcheck
      exact inv_accept h (checkCode_ok_iff.mp hcheck) rfl
    · exact h
  | insertUser i id salt =>
    rw [act]
    split
    · split
      · exact hidle i
      · rename_i hcreate
        exact (inv_enter h fun p hp => by cases hp).withSite (codes_createUser hcreate)
    · exact h
  | delRegisterCode i =>
    rw [act]
    split
    · exact inv_enter (inv_delete h _) fun p hp => by cases hp
    · exact h
  | modifyPwd i req =>
    rw [act]
    split
    · split
      · exact h
      · rename_i hcheck
        exact inv_accept h (checkCode_ok_iff.mp hcheck) rfl
    · exact h
  | selectUser i =>
    rw [act]
    split
    · rename_i hstage
      split
      · exact hidle i
      · refine inv_enter h fun p hp => ?_
        rw [hstage]
        exact hp
    · exact h
  | savePwd i salt =>
    rw [act]
    split
    · split
      · exact hidle i
      · rename_i hmodify
        exact (hidle i).withSite (codes_modifyPwd hmodify)
    · exact h
  | giveUp i => exact hidle i

theorem issued_act (op : AccountOp ι) {p : String × String} (h : p ∈ s.issued) :
    p ∈ (s.act cfg now op).issued := by
  cases op with
  | sendEmail email num =>
    rw [act]
    split
    · exact h
    · exact List.mem_append_left _ h
  | updateUser update => rw [act]; split <;> exact h
  | createUser i new => rw [act]; split <;> exact h
  | insertUser i id salt => rw [act]; split <;> (try split) <;> exact h
  | delRegisterCode i => rw [act]; split <;> exact h
  | modifyPwd i req => rw [act]; split <;> (try split) <;> exact h
  | selectUser i => rw [act]; split <;> (try split) <;> exact h
  | savePwd i salt => rw [act]; split <;> (try split) <;> exact h
  | giveUp i => exact h

theorem find_createUser {id : UserId} {salt : String} {new : UserRegister} {site site' : Site}
    {user r : User} (h : site.createUser cfg id salt new = .ok (user, site')) {u : UserId}
    (hfind : site.users.find u = some r) : site'.users.find u = some r := by
  unfold Site.createUser at h
  split at h
  · cases h
  · dsimp only at h
    split at h
    · rename_i users sequence hinsert _
      cases h
      rw [Table.find_insert hinsert, if_neg, hfind]
      rintro rfl
      rw [(Table.insert_eq_some hinsert).1] at hfind
      cases hfind
    · cases h

theorem find_updateUser {update : UserUpdate} {site site' : Site} {user r : User}
    (h : site.updateUser update = .ok (user, site')) {u : UserId}
    (hfind : site.users.find u = some r) :
    ∃ r', site'.users.find u = some r' ∧ r'.password = r.password := by
  unfold Site.updateUser at h
  split at h
  · cases h
  · cases h
    refine ⟨_, (Table.find_modify _ _ (User.updated update) (fun _ => rfl) u).trans (by rw [hfind]; rfl), ?_⟩
    dsimp only
    split <;> rfl

theorem find_modifyPwd {req : ModifyPwdRequest} {user r : User} {salt : String} {site site' : Site}
    (h : site.modifyPwd cfg req user salt = .ok site') {u : UserId} (hu : u ≠ req.userId)
    (hfind : site.users.find u = some r) : site'.users.find u = some r := by
  unfold Site.modifyPwd at h
  dsimp only at h
  split at h
  · cases h
  · rename_i password _
    cases h
    obtain ⟨-, hid⟩ := (Table.find_eq_some _ _ _).mp hfind
    refine (Table.find_modify _ _ (User.withPassword _ password) (fun _ => rfl) u).trans ?_
    rw [hfind, Option.map_some, if_neg]
    simpa [hid] using hu

/-- A call is the success of a reset of a user, or it leaves the password as it is. -/
theorem password_step {u : UserId} {user : User} (h : s.site.users.find u = some user) :
    (∃ a, s.approval cfg op = some a ∧ a.reset = some (u, user.email)) ∨
      ∃ user', (s.step cfg now op).site.users.find u = some user' ∧
        user'.password = user.password := by
  have hkept : ∀ t : Accounts ι, t.site.users = s.site.users →
      ∃ user', t.site.users.find u = some user' ∧ user'.password = user.password :=
    fun t ht => ⟨user, by rw [ht, h], rfl⟩
  cases op with
  | sendEmail email num =>
    refine .inr (hkept _ ?_)
    simp only [step, act]
    split <;> rfl
  | updateUser update =>
    simp only [step, act]
    split
    · exact .inr (hkept s rfl)
    · rename_i hupdate
      exact .inr (find_updateUser hupdate h)
  | createUser i new =>
    refine .inr (hkept _ ?_)
    simp only [step, act]
    split <;> rfl
  | insertUser i id salt =>
    simp only [step, act]
    split
    · split
      · exact .inr (hkept s rfl)
      · rename_i hcreate
        exact .inr ⟨user, find_createUser hcreate h, rfl⟩
    · exact .inr (hkept s rfl)
  | delRegisterCode i =>
    refine .inr (hkept _ ?_)
    simp only [step, act]
    split <;> rfl
  | modifyPwd i req =>
    refine .inr (hkept _ ?_)
    simp only [step, act]
    split
    · split <;> rfl
    · rfl
  | selectUser i =>
    refine .inr (hkept _ ?_)
    simp only [step, act]
    split
    · split <;> rfl
    · rfl
  | savePwd i salt =>
    simp only [step, act, approval]
    split
    · rename_i req r hstage
      cases hmodify : s.site.modifyPwd cfg req r salt with
      | error e => exact .inr (hkept s rfl)
      | ok site =>
        by_cases hu : u = req.userId
        · subst hu
          rw [h]
          exact .inl ⟨_, rfl, rfl⟩
        · exact .inr ⟨user, find_modifyPwd hmodify hu h, rfl⟩
    · exact .inr (hkept s rfl)
  | giveUp i => exact .inr (hkept s rfl)

section Held

variable {j : ι} {p : Nat × Clearance} {stage : RequestStage}

omit [DecidableEq ι] in
theorem held_congr {t : Accounts ι} (hstages : t.stages = s.stages) (hchecks : t.checks = s.checks) (j : ι)
    (p : Nat × Clearance) (hj : t.held j = some p) : s.held j = some p := by
  simpa only [held, hstages, hchecks] using hj

theorem held_enter_none (stage : RequestStage) (hcode : stage.code = none) (hj : (s.enter i stage).held j = some p) :
    j ≠ i ∧ s.held j = some p := by
  by_cases hij : j = i
  · subst hij
    simp [held, enter, hcode] at hj
  · exact ⟨hij, by simpa [held, enter, hij] using hj⟩

theorem held_enter_same (hcode : stage.code = (s.stages i).code) (hreset : stage.reset = (s.stages i).reset) :
    (s.enter i stage).held = s.held := by
  funext j
  by_cases hij : j = i
  · subst hij
    simp [held, enter, hcode, hreset]
  · simp [held, enter, hij]

theorem held_accept {email code : String} (hcode : stage.code = some (email, code)) :
    (s.accept i email stage).held =
      Function.update s.held i (some (s.admitted.length, ⟨email, s.number email, stage.reset⟩)) := by
  funext j
  by_cases hij : j = i
  · subst hij
    simp [held, accept, enter, hcode]
  · simp [held, accept, enter, hij]

end Held

/-- What a call does with the codes that the processes hold: it lets a request in, it is a success, or
neither. -/
inductive Turn (cfg : UserConfig) (now : Int) (s : Accounts ι) (op : AccountOp ι) : Prop where
  | quiet (hclearance : s.clearance cfg now op = none) (happroval : s.approval cfg op = none)
      (hheld : ∀ j p, (s.act cfg now op).held j = some p → s.held j = some p)
  | admits (i : ι) (a : Clearance) (hclearance : s.clearance cfg now op = some a)
      (happroval : s.approval cfg op = none)
      (hheld : (s.act cfg now op).held = Function.update s.held i (some (s.admitted.length, a)))
  | approves (i : ι) (a : Approval) (hclearance : s.clearance cfg now op = none)
      (happroval : s.approval cfg op = some a) (hcode : (s.stages i).code = some (a.email, a.code))
      (hi : s.held i = some (a.index, a.clearance))
      (hheld : ∀ j p, (s.act cfg now op).held j = some p → j ≠ i ∧ s.held j = some p)

/-- A lookup that finds the code of a free process, or does not. -/
theorem turn_lookup {email code : String} (i : ι) (stage : RequestStage) {op : AccountOp ι}
    (hcode : stage.code = some (email, code)) (happroval : s.approval cfg op = none)
    (hclearance : s.clearance cfg now op =
      if s.site.codes.getRegisterCode now email = some code then some ⟨email, s.number email, stage.reset⟩
      else none)
    (hact : s.act cfg now op =
      if s.site.codes.getRegisterCode now email = some code then s.accept i email stage else s) :
    s.Turn cfg now op := by
  by_cases hread : s.site.codes.getRegisterCode now email = some code
  · rw [if_pos hread] at hclearance hact
    refine .admits i _ hclearance happroval ?_
    rw [hact]
    exact held_accept hcode
  · rw [if_neg hread] at hclearance hact
    refine .quiet hclearance happroval fun j p hj => ?_
    rwa [hact] at hj

theorem turn_createUser (cfg : UserConfig) (now : Int) (s : Accounts ι) (i : ι) (new : UserRegister) :
    s.Turn cfg now (.createUser i new) := by
  cases hstage : s.stages i with
  | idle =>
    refine turn_lookup i (.inserting new) rfl rfl (by simp only [clearance, hstage]; rfl) ?_
    simp only [act, hstage]
    split
    · rename_i hcheck
      rw [if_pos (checkCode_ok_iff.mp hcheck)]
    · rename_i hcheck
      rw [if_neg fun hread => hcheck rfl (checkCode_ok_iff.mpr hread)]
  | _ =>
    refine .quiet (by simp only [clearance, hstage]) rfl (held_congr ?_ ?_) <;> simp only [act, hstage]

theorem turn_insertUser (cfg : UserConfig) (now : Int) (s : Accounts ι) (i : ι) (id : UserId) (salt : String) :
    s.Turn cfg now (.insertUser i id salt) := by
  cases hstage : s.stages i with
  | inserting new =>
    cases hcreate : s.site.createUser cfg id salt new with
    | error e =>
      refine .quiet rfl (by simp only [approval, hstage, hcreate]) fun j p hj => ?_
      simp only [act, hstage, hcreate] at hj
      exact (held_enter_none _ rfl hj).2
    | ok r =>
      refine .approves i _ rfl (by simp only [approval, hstage, hcreate]; rfl) (by rw [hstage]; rfl) ?_ ?_
      · simp [held, hstage, RequestStage.code, RequestStage.reset, Approval.clearance]
      · intro j p hj
        simp only [act, hstage, hcreate] at hj
        exact held_enter_none (.deleting new.email) rfl hj
  | _ =>
    refine .quiet rfl (by simp only [approval, hstage]) (held_congr ?_ ?_) <;> simp only [act, hstage]

theorem turn_modifyPwd (cfg : UserConfig) (now : Int) (s : Accounts ι) (i : ι) (req : ModifyPwdRequest) :
    s.Turn cfg now (.modifyPwd i req) := by
  cases hstage : s.stages i with
  | idle =>
    cases hdecode : req.decode cfg with
    | error e =>
      refine .quiet (by simp only [clearance, hstage, hdecode]) rfl (held_congr ?_ ?_) <;>
        simp only [act, hstage, hdecode]
    | ok req =>
      refine turn_lookup i (.selecting req) rfl rfl (by simp only [clearance, hstage, hdecode]; rfl) ?_
      simp only [act, hstage, hdecode]
      split
      · rename_i hcheck
        rw [if_neg fun hread => by rw [checkCode_ok_iff.mpr hread] at hcheck; cases hcheck]
      · rename_i hcheck
        rw [if_pos (checkCode_ok_iff.mp hcheck)]
  | _ =>
    refine .quiet (by simp only [clearance, hstage]) rfl (held_congr ?_ ?_) <;> simp only [act, hstage]

theorem turn_savePwd (cfg : UserConfig) (now : Int) (s : Accounts ι) (i : ι) (salt : String) :
    s.Turn cfg now (.savePwd i salt) := by
  cases hstage : s.stages i with
  | hashing req user =>
    cases hmodify : s.site.modifyPwd cfg req user salt with
    | error e =>
      refine .quiet rfl (by simp only [approval, hstage, hmodify]) fun j p hj => ?_
      simp only [act, hstage, hmodify] at hj
      exact (held_enter_none _ rfl hj).2
    | ok site =>
      have hdrop : ∀ j p, (s.act cfg now (.savePwd i salt)).held j = some p → j ≠ i ∧ s.held j = some p := by
        intro j p hj
        simp only [act, hstage, hmodify] at hj
        exact held_enter_none .idle rfl hj
      -- an update of no row is a success of the call that changes no password
      cases hfind : s.site.users.find req.userId with
      | none =>
        exact .quiet rfl (by simp only [approval, hstage, hmodify, hfind]) fun j p hj => (hdrop j p hj).2
      | some u =>
        refine .approves i _ rfl (by simp only [approval, hstage, hmodify, hfind]; rfl)
          (by rw [hstage]; rfl) ?_ hdrop
        simp [held, hstage, RequestStage.code, RequestStage.reset, Approval.clearance]
  | _ =>
    refine .quiet rfl (by simp only [approval, hstage]) (held_congr ?_ ?_) <;> simp only [act, hstage]

theorem turn (cfg : UserConfig) (now : Int) (s : Accounts ι) (op : AccountOp ι) : s.Turn cfg now op := by
  cases op with
  | sendEmail email num =>
    refine .quiet rfl rfl (held_congr ?_ ?_) <;> simp only [act] <;> split <;> rfl
  | updateUser update =>
    refine .quiet rfl rfl (held_congr ?_ ?_) <;> simp only [act] <;> split <;> rfl
  | createUser i new => exact turn_createUser cfg now s i new
  | insertUser i id salt => exact turn_insertUser cfg now s i id salt
  | delRegisterCode i =>
    refine .quiet rfl rfl fun j p hj => ?_
    simp only [act] at hj
    split at hj
    · exact (held_enter_none (s := s.delete now _) _ rfl hj).2
    · exact hj
  | modifyPwd i req => exact turn_modifyPwd cfg now s i req
  | selectUser i =>
    refine .quiet rfl rfl fun j p hj => ?_
    simp only [act] at hj
    split at hj
    · rename_i req hstage
      split at hj
      · exact (held_enter_none _ rfl hj).2
      · rwa [held_enter_same (by rw [hstage]; rfl) (by rw [hstage]; rfl)] at hj
    · exact hj
  | savePwd i salt => exact turn_savePwd cfg now s i salt
  | giveUp i => exact .quiet rfl rfl fun j p hj => (held_enter_none _ rfl hj).2

/-- A request that is let in has one success at most. -/
theorem tickets_step (h : Tickets s.held s.admitted s.spent) :
    Tickets (s.step cfg now op).held (s.step cfg now op).admitted (s.step cfg now op).spent := by
  have hheld : (s.step cfg now op).held = (s.act cfg now op).held := rfl
  have hspent : (s.step cfg now op).spent =
      s.spent ++ ((s.approval cfg op).toList.map fun a => (a.index, a.clearance)) := List.map_append
  have hadmitted : (s.step cfg now op).admitted = s.admitted ++ (s.clearance cfg now op).toList := rfl
  rw [hheld, hspent, hadmitted]
  obtain ⟨hclearance, happroval, hkept⟩ | ⟨i, a, hclearance, happroval, hnew⟩ |
    ⟨i, a, hclearance, happroval, -, hi, hkept⟩ := turn cfg now s op
  · rw [hclearance, happroval]
    simpa using h.drop hkept
  · rw [hclearance, happroval, hnew]
    simpa using h.issue i a
  · rw [hclearance, happroval]
    simpa using h.spend hi hkept

/-- The address stored for the user of an update is the one that the request names. -/
def Owned (s : Accounts ι) : AccountOp ι → Prop
  | .savePwd i _ => ∀ req user, s.stages i = .hashing req user →
      ∀ r ∈ s.site.users.find req.userId, r.email = some req.email
  | _ => True

/-- The code of a lookup has let no other request in, unless both are registrations. -/
def FirstUse (cfg : UserConfig) (now : Int) (s : Accounts ι) (op : AccountOp ι) : Prop :=
  ∀ a, s.clearance cfg now op = some a → ∀ b ∈ s.admitted, b.Apart a

instance (a b : Clearance) : Decidable (a.Apart b) := inferInstanceAs (Decidable (_ → _))

instance : Decidable (s.FirstUse cfg now op) :=
  inferInstanceAs (Decidable (∀ a ∈ s.clearance cfg now op, ∀ b ∈ s.admitted, b.Apart a))

theorem toOwner_step (h : s.Inv) (howner : s.ToOwner) (howned : s.Owned op) :
    (s.step cfg now op).ToOwner := by
  intro a ha u stored hreset
  obtain ha | ha := List.mem_append.mp ha
  · obtain ⟨email, hstored, hissued⟩ := howner a ha u stored hreset
    exact ⟨email, hstored, issued_act op hissued⟩
  · have happroval : s.approval cfg op = some a := Option.mem_toList.mp ha
    obtain ⟨i, salt, req, user, r, rfl, hstage, hfind, hstored, hemail⟩ := approval_reset happroval hreset
    have hsame := howned req user hstage r hfind
    refine ⟨a.email, by rw [← hstored, hsame, hemail], issued_act _ ?_⟩
    obtain ⟨-, hnone, -⟩ | ⟨-, -, -, hnone, -⟩ | ⟨j, b, -, hsome, hcode, -, -⟩ :=
      turn cfg now s (.savePwd i salt)
    · cases hnone.symm.trans happroval
    · cases hnone.symm.trans happroval
    · cases hsome.symm.trans happroval
      exact h.checked j _ _ hcode

theorem apart_step (h : s.admitted.Pairwise Clearance.Apart) (hfirst : s.FirstUse cfg now op) :
    (s.step cfg now op).admitted.Pairwise Clearance.Apart := by
  have hadmitted : (s.step cfg now op).admitted = s.admitted ++ (s.clearance cfg now op).toList := rfl
  rw [hadmitted, List.pairwise_append]
  refine ⟨h, ?_, ?_⟩
  · cases s.clearance cfg now op <;> simp
  · intro b hb a ha
    exact hfirst a (Option.mem_toList.mp ha) b hb

/-- The states of the runs in which every reset is of a user with the address that it names, and no code lets
a reset and another request in. -/
inductive SoundRun (cfg : UserConfig) : Accounts ι → Prop where
  | start (users : Table User.id) (sequence : Table SeqRow.userId) :
      SoundRun cfg (Accounts.start users sequence)
  | step {s : Accounts ι} (now : Int) (op : AccountOp ι) (h : SoundRun cfg s)
      (howned : s.Owned op) (hfirst : s.FirstUse cfg now op) : SoundRun cfg (s.step cfg now op)

theorem inv_step (h : s.Inv) : (s.step cfg now op).Inv :=
  have h' := inv_act h op
  ⟨h'.readable, h'.checked⟩

theorem SoundRun.inv (h : SoundRun cfg s) : s.Inv := by
  induction h with
  | start users sequence => exact inv_start users sequence
  | step now op _ _ _ ih => exact inv_step ih

theorem SoundRun.tickets (h : SoundRun cfg s) : Tickets s.held s.admitted s.spent := by
  induction h with
  | start users sequence => exact Tickets.empty
  | step now op _ _ _ ih => exact tickets_step ih

theorem SoundRun.apart (h : SoundRun cfg s) : s.admitted.Pairwise Clearance.Apart := by
  induction h with
  | start users sequence => exact List.Pairwise.nil
  | step now op _ _ hfirst ih => exact apart_step ih hfirst

theorem SoundRun.toOwner (h : SoundRun cfg s) : s.ToOwner := by
  induction h with
  | start users sequence => exact fun a ha => by cases ha
  | step now op h howned _ ih => exact toOwner_step h.inv ih howned

/-- The state after some calls, each at its instant. -/
def run (cfg : UserConfig) (ops : List (Int × AccountOp ι)) (s : Accounts ι) : Accounts ι :=
  ops.foldl (fun s op => s.step cfg op.1 op.2) s

end Accounts

/-- In those runs a password is reset by a code of its owner alone, and once. -/
theorem reset_authorised {ι : Type} [DecidableEq ι] (cfg : UserConfig) (s : Accounts ι)
    (h : Accounts.SoundRun cfg s) : s.ToOwner ∧ s.Once :=
  ⟨h.toOwner, Accounts.once_of_apart h.tickets h.apart⟩

/-- A user, and hashes that show what is hashed. -/
def ann : User := ⟨"u", "Ann", "u", "old", "s", some "ann@x", ""⟩

def annOnly : Table User.id := ⟨[ann], by decide⟩

def annAlone : Accounts Unit := .start annOnly ⟨[⟨"u", 5000, 5000⟩], by decide⟩

def showHash : UserConfig := ⟨fun password salt => .ok (salt ++ password), .ok, 5000⟩

/-- A reset by a code sent to an address. -/
def resetBy (t : Int) (email code pwd : String) : List (Int × AccountOp Unit) :=
  [(t + 2000, .modifyPwd () ⟨"u", email, pwd, code⟩), (t + 3000, .selectUser ()),
    (t + 4000, .savePwd () "")]

/-- A code sent to an address, and a reset by it. -/
def mailAndReset (t : Int) (email code pwd : String) : List (Int × AccountOp Unit) :=
  (t + 1000, .sendEmail email code) :: resetBy t email code pwd

/-- Ann resets her password, and a minute later once more with another code. -/
def annTwice : Accounts Unit :=
  Accounts.run showHash
    (mailAndReset 0 "ann@x" "123456" "new" ++ mailAndReset 60000 "ann@x" "654321" "newer") annAlone

theorem reset_authorised_ann :
    annTwice.approvals.length = 2 ∧ annTwice.ToOwner ∧ annTwice.Once := by
  refine ⟨by decide, reset_authorised showHash annTwice ?_⟩
  refine .step 64000 (.savePwd () "") (.step 63000 (.selectUser ()) (.step 62000 (.modifyPwd () _)
    (.step 61000 (.sendEmail _ _) (.step 4000 (.savePwd () "") (.step 3000 (.selectUser ())
      (.step 2000 (.modifyPwd () _) (.step 1000 (.sendEmail _ _) (.start annOnly _) trivial (by decide))
        trivial (by decide)) trivial (by decide)) ?_ (by decide)) trivial (by decide)) trivial (by decide))
          trivial (by decide)) ?_ (by decide)
  · intro req user hstage
    cases hstage
    decide
  · intro req user hstage
    cases hstage
    decide

/-- Another address does it for her, twice with one code. -/
def eveTwice : Accounts Unit :=
  Accounts.run showHash
    (mailAndReset 0 "eve@x" "123456" "new" ++ resetBy 60000 "eve@x" "123456" "newer") annAlone

theorem password_taken : ¬eveTwice.ToOwner ∧ ¬eveTwice.Once := by
  have happrovals : eveTwice.approvals = [⟨"eve@x", "123456", 1, 0, some ("u", some "ann@x")⟩,
      ⟨"eve@x", "123456", 1, 1, some ("u", some "ann@x")⟩] := rfl
  constructor
  · intro h
    rw [Accounts.ToOwner, happrovals] at h
    obtain ⟨email, hemail, hissued⟩ := h _ List.mem_cons_self _ _ rfl
    cases hemail
    revert hissued
    decide
  · intro h
    rw [Accounts.Once, happrovals] at h
    exact absurd ((List.pairwise_cons.mp h).1 _ List.mem_cons_self rfl).1 (by decide)

end Sandcat
