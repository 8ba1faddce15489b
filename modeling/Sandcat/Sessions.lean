import Sandcat.WsServer
import Mathlib.Algebra.Ring.Int.Defs
import Mathlib.Logic.Equiv.List

/-!
# Sessions

A login gives a pair of tokens, and `refresh_token` gives a new one for any token that is still accepted.
Nothing takes a token back. The requests are followed through all orders of their calls, while accounts
change and the clock runs; who has no token cannot make one.
-/

namespace Sandcat

/-- `Claims` of the API. -/
structure TokenClaims where
  sub : UserId
  exp : Int
  iat : Int
  deriving DecidableEq

/-- `EXPIRES`, in seconds. -/
def expires : Int := 60 * 60 * 4

/-- `REFRESH_EXPIRES`. -/
def refreshExpires : Int := 24 * 60 * 60

/-- The leeway of `Validation::default()`. -/
def leeway : Int := 60

/-- The longest time that a token is accepted. -/
def longest : Int := expires + refreshExpires + leeway

namespace TokenClaims

def new (sub : UserId) (now : Int) : TokenClaims := ⟨sub, now + expires, now⟩

/-- `exp += REFRESH_EXPIRES`. -/
def prolonged (c : TokenClaims) : TokenClaims := { c with exp := c.exp + refreshExpires }

end TokenClaims

/-- The columns of `users` that a login reads. -/
structure LoginRow where
  id : UserId
  account : String
  phone : Option String
  email : Option String
  password : String
  deriving DecidableEq

/-- `account = $1 OR phone = $1 OR email = $1`. -/
def LoginRow.named (name : String) (row : LoginRow) : Bool :=
  row.account = name || row.phone = some name || row.email = some name

structure LoginRequest where
  account : String
  password : String

/-- What the API takes from its libraries: `jsonwebtoken::encode` and `decode` with a secret, the latter at
a time, the parsing of a password hash with the check of a password, and base64. -/
structure LoginLibraries where
  encode : TokenClaims → String → Except String String
  decode : Int → String → String → Except JwtError TokenClaims
  verify : String → String → Except String Bool
  decodePwd : String → Except Error String

/-- A signed token is accepted up to its expiry and the leeway, with the claims that were signed. -/
def LoginLibraries.Signs (lib : LoginLibraries) (secret : String) : Prop :=
  ∀ c token, lib.encode c secret = .ok token →
    ∀ now c', lib.decode now token secret = .ok c' ↔ c' = c ∧ now ≤ c.exp + leeway

/-- `LoginRequest::decode`. -/
def LoginRequest.decode (lib : LoginLibraries) (login : LoginRequest) : Except Error LoginRequest :=
  if login.account = "" ∨ login.password = "" then .error (.mk .badRequest (some "parameter is none"))
  else (lib.decodePwd login.password).map fun password => { login with password }

/-- `verify_pwd`; of several rows that match, the first. -/
def verifyPwd (lib : LoginLibraries) (account password : String) (users : Table LoginRow.id) :
    Except Error (Option LoginRow) :=
  match users.rows.find? (LoginRow.named account) with
  | none => .ok none
  | some user =>
    match lib.verify user.password password with
    | .error e => .error (.mk .internalServer (some e))
    | .ok isValid => .ok (if isValid then some user else none)

/-- The row of a login bears the name and its hash accepts the password. -/
theorem verifyPwd_some {lib : LoginLibraries} {account password : String} {users : Table LoginRow.id}
    {user : LoginRow} (h : verifyPwd lib account password users = .ok (some user)) :
    user.named account = true ∧ lib.verify user.password password = .ok true := by
  unfold verifyPwd at h
  split at h
  · cases h
  · rename_i row hrow
    split at h
    · cases h
    · rename_i isValid hvalid
      cases isValid with
      | false => cases h
      | true =>
        cases h
        exact ⟨List.find?_some hrow, hvalid⟩

/-- How a request has shown who it is: by a name and a password, or by an address that GitHub has given. -/
inductive Credential where
  | byPassword (account password : String)
  | byGithub (email : String)

/-- The row is one that the credential speaks for. -/
def Credential.Proves (lib : LoginLibraries) (row : LoginRow) : Credential → Prop
  | .byPassword account password => row.named account = true ∧ lib.verify row.password password = .ok true
  | .byGithub email => row.email = some email

/-- Where a request stands. A login has found its user, has signed a pair of tokens, has entered the user
as online; a refresh has decoded its token. -/
inductive SessionStage where
  | idle
  | verified (user : LoginRow) (credential : Credential) (checked : Int)
  | signed (account : String) (token refreshToken : TokenClaims × String)
  | entered (token refreshToken : TokenClaims × String)
  | decoded (claims : TokenClaims) (isRefresh : Bool) (checked : Int)

/-- A pair of tokens signed for a user at a time, or a token signed in the place of an older one; each with
the time of the check. -/
inductive SessionEvent where
  | login (user : LoginRow) (credential : Credential) (checked iat : Int)
  | refresh (sub : UserId) (oldIat checked iat : Int)

/-- `held` are the tokens that have been given out. -/
structure Sessions (ι : Type) where
  now : Int
  users : Table LoginRow.id
  online : List String
  stage : ι → SessionStage
  held : List (TokenClaims × String)
  log : List SessionEvent

/-- A request arrives, or a call of one is answered. `callback` comes with the address that GitHub gives;
`enter` and `grant` tell whether the calls succeed, `added` whether a failed one has had its effect. -/
inductive SessionOp (ι : Type) where
  | tick (seconds : Nat)
  | accounts (users : Table LoginRow.id)
  | login (i : ι) (req : LoginRequest)
  | callback (i : ι) (email : String)
  | sign (i : ι)
  | enter (i : ι) (answered added : Bool)
  | grant (i : ι) (answered : Bool)
  | refresh (i : ι) (token : String) (isRefresh : Bool)
  | renew (i : ι)
  | logout (uuid : String)

/-- The user that a request logs in, with the credential. -/
def SessionOp.loggingIn {ι : Type} (lib : LoginLibraries) (users : Table LoginRow.id) :
    SessionOp ι → Option (LoginRow × Credential)
  | .login _ req =>
    match req.decode lib with
    | .error _ => none
    | .ok req =>
      match verifyPwd lib req.account req.password users with
      | .ok (some user) => some (user, .byPassword req.account req.password)
      | _ => none
  | .callback _ email =>
    (users.rows.find? fun row => row.email = some email).map fun user => (user, .byGithub email)
  | _ => none

/-- `refresh_token` up to the new claims. -/
def refreshToken (lib : LoginLibraries) (secret : String) (now : Int) (token : String) :
    Except Error TokenClaims :=
  match lib.decode now token secret with
  | .error _ => .error (.mk .unAuthorized (some "/refresh_token"))
  | .ok claims => .ok claims

namespace Sessions

variable {ι : Type} [DecidableEq ι]

def start (now : Int) (users : Table LoginRow.id) (online : List String) : Sessions ι :=
  ⟨now, users, online, fun _ => .idle, [], []⟩

def goTo (i : ι) (stage : SessionStage) (s : Sessions ι) : Sessions ι :=
  { s with stage := Function.update s.stage i stage }

/-- A new request has found its user. -/
def verifiedAs (i : ι) (found : Option (LoginRow × Credential)) (s : Sessions ι) : Sessions ι :=
  match s.stage i, found with
  | .idle, some (user, credential) => s.goTo i (.verified user credential s.now)
  | _, _ => s

/-- `SADD` of the account. -/
def userLogin (account : String) (s : Sessions ι) : Sessions ι :=
  if account ∈ s.online then s else { s with online := s.online ++ [account] }

def step (lib : LoginLibraries) (secret : String) (s : Sessions ι) : SessionOp ι → Sessions ι
  | .tick seconds => { s with now := s.now + seconds }
  | .accounts users => { s with users }
  | .login i req => s.verifiedAs i (SessionOp.loggingIn lib s.users (.login i req))
  | .callback i email => s.verifiedAs i (SessionOp.loggingIn lib s.users (.callback i email))
  | .sign i =>
    match s.stage i with
    | .verified user credential checked =>
      let claims := TokenClaims.new user.id s.now
      match lib.encode claims secret, lib.encode claims.prolonged secret with
      | .ok token, .ok refreshToken =>
        { s.goTo i (.signed user.account (claims, token) (claims.prolonged, refreshToken)) with
          log := s.log ++ [.login user credential checked s.now] }
      | _, _ => s.goTo i .idle
    | _ => s
  | .enter i answered added =>
    match s.stage i with
    | .signed account token refreshToken =>
      if answered then (s.userLogin account).goTo i (.entered token refreshToken)
      else (if added then s.userLogin account else s).goTo i .idle
    | _ => s
  | .grant i answered =>
    match s.stage i with
    | .entered token refreshToken =>
      if answered then { s.goTo i .idle with held := s.held ++ [token, refreshToken] } else s.goTo i .idle
    | _ => s
  | .refresh i token isRefresh =>
    match s.stage i, refreshToken lib secret s.now token with
    | .idle, .ok claims => s.goTo i (.decoded claims isRefresh s.now)
    | _, _ => s
  | .renew i =>
    match s.stage i with
    | .decoded old isRefresh checked =>
      let claims := TokenClaims.new old.sub s.now
      let claims := if isRefresh then claims.prolonged else claims
      match lib.encode claims secret with
      | .ok token =>
        { s.goTo i .idle with
          held := s.held ++ [(claims, token)]
          log := s.log ++ [.refresh old.sub old.iat checked s.now] }
      | .error _ => s.goTo i .idle
    | _ => s
  | .logout uuid => { s with online := s.online.filter (· ≠ uuid) }

end Sessions

/-- A token that is accepted at some time has been given out. -/
def Unforged {ι : Type} (lib : LoginLibraries) (secret : String) (s : Sessions ι) (token : String) : Prop :=
  ∀ now claims, lib.decode now token secret = .ok claims → token ∈ s.held.map Prod.snd

/-- Nobody presents a token to `refresh_token` that is not one of the server's. -/
def SessionOp.Fair {ι : Type} (lib : LoginLibraries) (secret : String) (s : Sessions ι) :
    SessionOp ι → Prop
  | .refresh _ token _ => Unforged lib secret s token
  | _ => True

/-- The runs of the requests. -/
inductive SessionRun {ι : Type} [DecidableEq ι] (lib : LoginLibraries) (secret : String) :
    Sessions ι → Prop where
  | start (now : Int) (users : Table LoginRow.id) (online : List String) :
      SessionRun lib secret (.start now users online)
  | step {s : Sessions ι} (op : SessionOp ι) : SessionRun lib secret s → op.Fair lib secret s →
      SessionRun lib secret (s.step lib secret op)

/-- The tokens of a user that were signed at a time go back to a login: that of the pair, or that of the
token which was presented for it, while it was accepted. -/
inductive Descends (lib : LoginLibraries) (log : List SessionEvent) : UserId → Int → Prop where
  | login {user : LoginRow} {credential : Credential} {checked iat : Int} :
      .login user credential checked iat ∈ log → credential.Proves lib user → checked ≤ iat →
      Descends lib log user.id iat
  | refresh {sub : UserId} {oldIat checked iat : Int} : Descends lib log sub oldIat →
      .refresh sub oldIat checked iat ∈ log → oldIat ≤ checked → checked ≤ oldIat + longest →
      checked ≤ iat → Descends lib log sub iat

section

variable {ι : Type} {lib : LoginLibraries} {secret : String} {s t : Sessions ι}

theorem Descends.mono {log more : List SessionEvent} {u : UserId} {iat : Int} (h : Descends lib log u iat)
    (hmore : log ⊆ more) : Descends lib more u iat := by
  induction h with
  | login hmem hproves hle => exact .login (hmore hmem) hproves hle
  | refresh _ hmem h₁ h₂ h₃ ih => exact .refresh ih (hmore hmem) h₁ h₂ h₃

/-- A token of the server, signed in the past. -/
structure Genuine (lib : LoginLibraries) (secret : String) (s : Sessions ι) (p : TokenClaims × String) :
    Prop where
  signed : lib.encode p.1 secret = .ok p.2
  lasts : p.1.exp ≤ p.1.iat + expires + refreshExpires
  past : p.1.iat ≤ s.now
  descends : Descends lib s.log p.1.sub p.1.iat

/-- What is known of a request. -/
def StageSound (lib : LoginLibraries) (secret : String) (s : Sessions ι) : SessionStage → Prop
  | .idle => True
  | .verified user credential checked => credential.Proves lib user ∧ checked ≤ s.now
  | .signed _ p q => Genuine lib secret s p ∧ Genuine lib secret s q
  | .entered p q => Genuine lib secret s p ∧ Genuine lib secret s q
  | .decoded old _ checked => Descends lib s.log old.sub old.iat ∧ old.iat ≤ checked ∧
      checked ≤ old.iat + longest ∧ checked ≤ s.now

structure SessionsSound (lib : LoginLibraries) (secret : String) (s : Sessions ι) : Prop where
  held : ∀ p ∈ s.held, Genuine lib secret s p
  stages : ∀ i, StageSound lib secret s (s.stage i)

theorem Genuine.later {p : TokenClaims × String} (h : Genuine lib secret s p) (hnow : s.now ≤ t.now)
    (hlog : s.log ⊆ t.log) : Genuine lib secret t p :=
  ⟨h.signed, h.lasts, h.past.trans hnow, h.descends.mono hlog⟩

theorem StageSound.later {stage : SessionStage} (h : StageSound lib secret s stage) (hnow : s.now ≤ t.now)
    (hlog : s.log ⊆ t.log) : StageSound lib secret t stage := by
  cases stage with
  | idle => trivial
  | verified user credential checked => exact ⟨h.1, h.2.trans hnow⟩
  | signed account p q => exact ⟨h.1.later hnow hlog, h.2.later hnow hlog⟩
  | entered p q => exact ⟨h.1.later hnow hlog, h.2.later hnow hlog⟩
  | decoded old isRefresh checked => exact ⟨h.1.mono hlog, h.2.1, h.2.2.1, h.2.2.2.trans hnow⟩

/-- A token that is accepted is one of the server's, and has its claims. -/
theorem SessionsSound.accepted (h : SessionsSound lib secret s) (hsigns : lib.Signs secret) {token : String}
    (hunforged : Unforged lib secret s token) {now : Int} {claims : TokenClaims}
    (hdecode : lib.decode now token secret = .ok claims) :
    (claims, token) ∈ s.held ∧ now ≤ claims.exp + leeway := by
  obtain ⟨⟨c, token'⟩, hp, rfl⟩ := List.mem_map.mp (hunforged now claims hdecode)
  obtain ⟨rfl, hle⟩ := (hsigns _ _ (h.held _ hp).signed now claims).mp hdecode
  exact ⟨hp, hle⟩

/-- A login is one that its credential proves. -/
theorem proves_of_loggingIn {op : SessionOp ι} {users : Table LoginRow.id} {user : LoginRow}
    {credential : Credential} (h : op.loggingIn lib users = some (user, credential)) :
    credential.Proves lib user := by
  cases op with
  | login i req =>
    simp only [SessionOp.loggingIn] at h
    split at h
    · cases h
    · split at h
      · rename_i hverified
        cases h
        exact verifyPwd_some hverified
      · cases h
  | callback i email =>
    obtain ⟨row, hrow, he⟩ := Option.map_eq_some_iff.mp h
    cases he
    have hemail := List.find?_some hrow
    change user.email = some email
    exact of_decide_eq_true hemail
  | _ => cases h

end

/-- What a request may do in one step: where it goes, which tokens it gives out, what is logged. -/
inductive Move {ι : Type} (lib : LoginLibraries) (secret : String) (s : Sessions ι) (op : SessionOp ι) :
    ι → SessionStage → List (TokenClaims × String) → List SessionEvent → Prop where
  | drop (i : ι) : Move lib secret s op i .idle [] []
  | verify (i : ι) {user : LoginRow} {credential : Credential} :
      op.loggingIn lib s.users = some (user, credential) →
      Move lib secret s op i (.verified user credential s.now) [] []
  | sign (i : ι) {user : LoginRow} {credential : Credential} {checked : Int} {token refreshToken : String} :
      s.stage i = .verified user credential checked →
      lib.encode (.new user.id s.now) secret = .ok token →
      lib.encode (TokenClaims.new user.id s.now).prolonged secret = .ok refreshToken →
      Move lib secret s op i
        (.signed user.account (.new user.id s.now, token)
          ((TokenClaims.new user.id s.now).prolonged, refreshToken))
        [] [.login user credential checked s.now]
  | enter (i : ι) {account : String} {p q : TokenClaims × String} : s.stage i = .signed account p q →
      Move lib secret s op i (.entered p q) [] []
  | grant (i : ι) {p q : TokenClaims × String} : s.stage i = .entered p q →
      Move lib secret s op i .idle [p, q] []
  | decode (i : ι) {token : String} {isRefresh : Bool} {claims : TokenClaims} :
      op = .refresh i token isRefresh → lib.decode s.now token secret = .ok claims →
      Move lib secret s op i (.decoded claims isRefresh s.now) [] []
  | renew (i : ι) {old claims : TokenClaims} {isRefresh : Bool} {checked : Int} {token : String} :
      s.stage i = .decoded old isRefresh checked →
      claims = (if isRefresh then (TokenClaims.new old.sub s.now).prolonged else .new old.sub s.now) →
      lib.encode claims secret = .ok token →
      Move lib secret s op i .idle [(claims, token)] [.refresh old.sub old.iat checked s.now]

section

variable {ι : Type} {lib : LoginLibraries} {secret : String} {s t : Sessions ι}

/-- The tokens that a request gives out, and where it goes. -/
theorem SessionsSound.move (h : SessionsSound lib secret s) (hsigns : lib.Signs secret) {op : SessionOp ι}
    (hfair : op.Fair lib secret s) {i : ι} {stage : SessionStage} {tokens : List (TokenClaims × String)}
    {events : List SessionEvent} (hmove : Move lib secret s op i stage tokens events)
    (hnow : t.now = s.now) (hlog : t.log = s.log ++ events) :
    (∀ p ∈ tokens, Genuine lib secret t p) ∧ StageSound lib secret t stage := by
  have hmore : s.log ⊆ t.log := hlog ▸ List.subset_append_left _ _
  have hknown := h.stages i
  cases hmove with
  | drop => exact ⟨fun _ hp => (nomatch hp), trivial⟩
  | verify hfound => exact ⟨fun _ hp => (nomatch hp), proves_of_loggingIn hfound, hnow.ge⟩
  | @sign user credential checked token refreshToken hstage htoken hrefresh =>
    rw [hstage] at hknown
    have hdescends : Descends lib t.log user.id s.now :=
      .login (hlog ▸ List.mem_append_right _ (List.mem_singleton_self _)) hknown.1 hknown.2
    refine ⟨fun _ hp => (nomatch hp), ⟨htoken, ?_, hnow.ge, hdescends⟩, hrefresh, ?_, hnow.ge, hdescends⟩
    · simp only [TokenClaims.new, refreshExpires]
      omega
    · exact le_refl _
  | enter hstage =>
    rw [hstage] at hknown
    exact ⟨fun _ hp => (nomatch hp), hknown.1.later hnow.ge hmore, hknown.2.later hnow.ge hmore⟩
  | @grant p q hstage =>
    rw [hstage] at hknown
    refine ⟨fun x hx => ?_, trivial⟩
    rcases List.mem_pair.mp hx with rfl | rfl
    · exact hknown.1.later hnow.ge hmore
    · exact hknown.2.later hnow.ge hmore
  | @decode token isRefresh claims hop hdecode =>
    subst hop
    obtain ⟨hheld, hle⟩ := h.accepted hsigns hfair hdecode
    have hgenuine := h.held _ hheld
    refine ⟨fun _ hp => (nomatch hp), hgenuine.descends.mono hmore, hgenuine.past, ?_, hnow.ge⟩
    have hlasts : claims.exp ≤ claims.iat + expires + refreshExpires := hgenuine.lasts
    simp only [longest]
    omega
  | @renew old claims isRefresh checked token hstage hclaims htoken =>
    rw [hstage] at hknown
    obtain ⟨hold, hpast, hlasted, hchecked⟩ := hknown
    refine ⟨fun x hx => ?_, trivial⟩
    rw [List.mem_singleton.mp hx]
    have hdescends : Descends lib t.log old.sub s.now :=
      .refresh (hold.mono hmore) (hlog ▸ List.mem_append_right _ (List.mem_singleton_self _)) hpast hlasted
        hchecked
    subst hclaims
    cases isRefresh with
    | false =>
      refine ⟨htoken, ?_, hnow.ge, hdescends⟩
      simp only [TokenClaims.new, refreshExpires, Bool.false_eq_true, if_false]
      omega
    | true => exact ⟨htoken, le_refl _, hnow.ge, hdescends⟩

/-- The request is one for a user. -/
def SessionStage.Concerns (u : UserId) : SessionStage → Prop
  | .idle => False
  | .verified user _ _ => user.id = u
  | .signed _ p q => p.1.sub = u ∨ q.1.sub = u
  | .entered p q => p.1.sub = u ∨ q.1.sub = u
  | .decoded old _ _ => old.sub = u

/-- Every token of the user is past its time, and none is on the way. -/
structure Lapsed (u : UserId) (s : Sessions ι) : Prop where
  held : ∀ p ∈ s.held, p.1.sub = u → p.1.exp + leeway < s.now
  stages : ∀ i, ¬ (s.stage i).Concerns u

theorem Lapsed.move {u : UserId} (h : Lapsed u s) (hsound : SessionsSound lib secret s)
    (hsigns : lib.Signs secret) {op : SessionOp ι} (hfair : op.Fair lib secret s)
    (hnot : ∀ p, op.loggingIn lib s.users = some p → p.1.id ≠ u) {i : ι} {stage : SessionStage}
    {tokens : List (TokenClaims × String)} {events : List SessionEvent}
    (hmove : Move lib secret s op i stage tokens events) :
    (∀ p ∈ tokens, p.1.sub ≠ u) ∧ ¬ stage.Concerns u := by
  have hother := h.stages i
  cases hmove with
  | drop => exact ⟨fun _ hp => (nomatch hp), id⟩
  | verify hfound => exact ⟨fun _ hp => (nomatch hp), hnot _ hfound⟩
  | sign hstage _ _ =>
    rw [hstage] at hother
    exact ⟨fun _ hp => (nomatch hp), fun hu => hu.elim hother hother⟩
  | enter hstage =>
    rw [hstage] at hother
    exact ⟨fun _ hp => (nomatch hp), hother⟩
  | grant hstage =>
    rw [hstage] at hother
    refine ⟨fun x hx hu => hother ?_, id⟩
    rcases List.mem_pair.mp hx with rfl | rfl
    · exact .inl hu
    · exact .inr hu
  | decode hop hdecode =>
    subst hop
    -- The token that is accepted is held, so that it is not one of the user's.
    obtain ⟨hheld, hle⟩ := hsound.accepted hsigns hfair hdecode
    refine ⟨fun _ hp => (nomatch hp), fun hu => ?_⟩
    have hlapsed := h.held _ hheld hu
    dsimp only at hlapsed
    omega
  | @renew old claims isRefresh _ _ hstage hclaims _ =>
    rw [hstage] at hother
    refine ⟨fun x hx hu => hother ?_, id⟩
    rw [List.mem_singleton.mp hx] at hu
    subst hclaims
    cases isRefresh <;> exact hu

end

/-- The effect of a step: time passes, or one request moves. -/
inductive SessionEffect {ι : Type} [DecidableEq ι] (lib : LoginLibraries) (secret : String) (s : Sessions ι)
    (op : SessionOp ι) (t : Sessions ι) : Prop where
  | quiet : s.now ≤ t.now → t.stage = s.stage → t.held = s.held → t.log = s.log →
      SessionEffect lib secret s op t
  | move (i : ι) (stage : SessionStage) (tokens : List (TokenClaims × String))
      (events : List SessionEvent) : Move lib secret s op i stage tokens events → t.now = s.now →
      t.stage = Function.update s.stage i stage → t.held = s.held ++ tokens →
      t.log = s.log ++ events → SessionEffect lib secret s op t

theorem userLogin_fields {ι : Type} (account : String) (s : Sessions ι) : (s.userLogin account).now = s.now ∧
    (s.userLogin account).stage = s.stage ∧ (s.userLogin account).held = s.held ∧
      (s.userLogin account).log = s.log := by
  unfold Sessions.userLogin
  split <;> exact ⟨rfl, rfl, rfl, rfl⟩

section

variable {ι : Type} [DecidableEq ι] {lib : LoginLibraries} {secret : String} {s t : Sessions ι}

theorem effect_refl (op : SessionOp ι) : SessionEffect lib secret s op s :=
  .quiet (le_refl _) rfl rfl rfl

theorem effect_goTo {op : SessionOp ι} {i : ι} {stage : SessionStage} (h : Move lib secret s op i stage [] []) :
    SessionEffect lib secret s op (s.goTo i stage) :=
  .move i stage [] [] h rfl rfl (List.append_nil _).symm (List.append_nil _).symm

theorem effect_verifiedAs (op : SessionOp ι) (i : ι) :
    SessionEffect lib secret s op (s.verifiedAs i (op.loggingIn lib s.users)) := by
  unfold Sessions.verifiedAs
  split
  · rename_i hfound
    exact effect_goTo (.verify i hfound)
  · exact effect_refl op

theorem session_effect (op : SessionOp ι) : SessionEffect lib secret s op (s.step lib secret op) := by
  cases op with
  | tick seconds => exact .quiet (Int.le_add_of_nonneg_right (Int.natCast_nonneg _)) rfl rfl rfl
  | accounts users => exact .quiet (le_refl _) rfl rfl rfl
  | logout uuid => exact .quiet (le_refl _) rfl rfl rfl
  | login i req => exact effect_verifiedAs _ i
  | callback i email => exact effect_verifiedAs _ i
  | sign i =>
    simp only [Sessions.step]
    split
    · rename_i hstage
      split
      · rename_i htoken hrefresh
        exact .move i _ [] _ (.sign i hstage htoken hrefresh) rfl rfl (List.append_nil _).symm rfl
      · exact effect_goTo (.drop i)
    · exact effect_refl _
  | enter i answered added =>
    simp only [Sessions.step]
    split
    · rename_i account p q hstage
      obtain ⟨hnow, hst, hheld, hlog⟩ := userLogin_fields account s
      split
      · refine .move i _ [] [] (.enter i hstage) hnow ?_ ?_ ?_
        · exact congrArg (Function.update · i _) hst
        · exact hheld.trans (List.append_nil _).symm
        · exact hlog.trans (List.append_nil _).symm
      · split
        · refine .move i _ [] [] (.drop i) hnow ?_ ?_ ?_
          · exact congrArg (Function.update · i _) hst
          · exact hheld.trans (List.append_nil _).symm
          · exact hlog.trans (List.append_nil _).symm
        · exact effect_goTo (.drop i)
    · exact effect_refl _
  | grant i answered =>
    simp only [Sessions.step]
    split
    · rename_i hstage
      split
      · exact .move i _ _ [] (.grant i hstage) rfl rfl rfl (List.append_nil _).symm
      · exact effect_goTo (.drop i)
    · exact effect_refl _
  | refresh i token isRefresh =>
    simp only [Sessions.step, refreshToken]
    split
    · rename_i hdecoded
      refine effect_goTo (.decode i rfl ?_)
      split at hdecoded
      · cases hdecoded
      · cases hdecoded
        assumption
    · exact effect_refl _
  | renew i =>
    simp only [Sessions.step]
    split
    · rename_i hstage
      split
      · rename_i htoken
        exact .move i _ _ _ (.renew i hstage rfl htoken) rfl rfl rfl rfl
      · exact effect_goTo (.drop i)
    · exact effect_refl _

/-- What one step keeps. -/
theorem SessionsSound.step (h : SessionsSound lib secret s) (hsigns : lib.Signs secret) {op : SessionOp ι}
    (hfair : op.Fair lib secret s) (heffect : SessionEffect lib secret s op t) :
    SessionsSound lib secret t := by
  cases heffect with
  | quiet hnow hstage hheld hlog =>
    have hmore : s.log ⊆ t.log := hlog ▸ List.Subset.refl _
    refine ⟨fun p hp => (h.held p (hheld ▸ hp)).later hnow hmore, fun i => ?_⟩
    rw [hstage]
    exact (h.stages i).later hnow hmore
  | move i stage tokens events hmove hnow hstage hheld hlog =>
    have hmore : s.log ⊆ t.log := hlog ▸ List.subset_append_left _ _
    obtain ⟨htokens, hsound⟩ := h.move hsigns hfair hmove hnow hlog
    refine ⟨fun p hp => ?_, fun j => ?_⟩
    · rw [hheld] at hp
      rcases List.mem_append.mp hp with hp | hp
      · exact (h.held p hp).later hnow.ge hmore
      · exact htokens p hp
    · rw [hstage]
      by_cases hj : j = i
      · subst hj
        rwa [Function.update_self]
      · rw [Function.update_of_ne hj]
        exact (h.stages j).later hnow.ge hmore

theorem SessionRun.sound (hsigns : lib.Signs secret) (h : SessionRun lib secret s) :
    SessionsSound lib secret s := by
  induction h with
  | start now users online => exact ⟨fun _ hp => (nomatch hp), fun _ => trivial⟩
  | step op _ hfair ih => exact ih.step hsigns hfair (session_effect op)

/-- The gateway's view of the libraries at a time. -/
def LoginLibraries.libraries (lib : LoginLibraries) (now : Int) (fromStr : String → Option Msg)
    (decodeFromSlice : Bincode.Bytes → Option Msg) : Libraries :=
  ⟨fun token secret => (lib.decode now token secret).map fun claims => ⟨claims.sub⟩, fromStr, decodeFromSlice⟩

/-- A token that opens a websocket as a user was signed for this user at most twenty-eight hours and a
minute ago, and descends from a login with a credential of the user through tokens each of which was
presented while it was accepted. -/
theorem connection_descends (hsigns : lib.Signs secret) (h : SessionRun lib secret s) {token : String}
    (hunforged : Unforged lib secret s token) (fromStr : String → Option Msg)
    (decodeFromSlice : Bincode.Bytes → Option Msg) {u : UserId} {claims : Claims}
    (hverify : WsServer.verifyToken (lib.libraries s.now fromStr decodeFromSlice) token u secret =
      .ok claims) :
    ∃ iat, Descends lib s.log u iat ∧ iat ≤ s.now ∧ s.now ≤ iat + longest := by
  obtain ⟨hdecode, hsub⟩ := WsServer.verifyToken_ok.mp hverify
  simp only [LoginLibraries.libraries] at hdecode
  obtain ⟨c, hc, rfl⟩ := Remote.eq_ok_of_map hdecode
  subst hsub
  have hsound := h.sound hsigns
  obtain ⟨hheld, hle⟩ := hsound.accepted hsigns hunforged hc
  have hgenuine := hsound.held _ hheld
  have hlasts : c.exp ≤ c.iat + expires + refreshExpires := hgenuine.lasts
  refine ⟨c.iat, hgenuine.descends, hgenuine.past, ?_⟩
  simp only [longest]
  omega

/-- The runs that go on from a state in which the user does not log in again. -/
inductive Continued (lib : LoginLibraries) (secret : String) (u : UserId) (s : Sessions ι) :
    Sessions ι → Prop where
  | refl : Continued lib secret u s s
  | step {t : Sessions ι} (op : SessionOp ι) : Continued lib secret u s t → op.Fair lib secret t →
      (∀ p, op.loggingIn lib t.users = some p → p.1.id ≠ u) →
      Continued lib secret u s (t.step lib secret op)

theorem Continued.trans {u : UserId} {r : Sessions ι} (h : Continued lib secret u s t)
    (h' : Continued lib secret u t r) : Continued lib secret u s r := by
  induction h' with
  | refl => exact h
  | step op _ hfair hnot ih => exact ih.step op hfair hnot

theorem Continued.run {u : UserId} (h : Continued lib secret u s t) (hrun : SessionRun lib secret s) :
    SessionRun lib secret t := by
  induction h with
  | refl => exact hrun
  | step op _ hfair _ ih => exact ih.step op hfair

/-- A user without an accepted token gets none but by a login. -/
theorem Lapsed.step {u : UserId} (h : Lapsed u s) (hsound : SessionsSound lib secret s)
    (hsigns : lib.Signs secret) {op : SessionOp ι} (hfair : op.Fair lib secret s)
    (hnot : ∀ p, op.loggingIn lib s.users = some p → p.1.id ≠ u)
    (heffect : SessionEffect lib secret s op t) : Lapsed u t := by
  cases heffect with
  | quiet hnow hstage hheld hlog =>
    refine ⟨fun p hp hu => (h.held p (hheld ▸ hp) hu).trans_le hnow, fun i => ?_⟩
    rw [hstage]
    exact h.stages i
  | move i stage tokens events hmove hnow hstage hheld hlog =>
    obtain ⟨htokens, hstays⟩ := h.move hsound hsigns hfair hnot hmove
    refine ⟨fun p hp hu => ?_, fun j => ?_⟩
    · rw [hheld] at hp
      rcases List.mem_append.mp hp with hp | hp
      · rw [hnow]
        exact h.held p hp hu
      · exact absurd hu (htokens p hp)
    · rw [hstage]
      by_cases hj : j = i
      · subst hj
        rwa [Function.update_self]
      · rw [Function.update_of_ne hj]
        exact h.stages j

theorem Continued.lapsed {u : UserId} (h : Continued lib secret u s t) (hsigns : lib.Signs secret)
    (hrun : SessionRun lib secret s) (hlapsed : Lapsed u s) : Lapsed u t := by
  induction h with
  | refl => exact hlapsed
  | step op hcont hfair hnot ih =>
    exact ih.step ((hcont.run hrun).sound hsigns) hsigns hfair hnot (session_effect op)

/-- Some token of the user is accepted. -/
def Accepted (lib : LoginLibraries) (secret : String) (u : UserId) (s : Sessions ι) : Prop :=
  ∃ p ∈ s.held, p.1.sub = u ∧ lib.decode s.now p.2 secret = .ok p.1

/-- An accepted token is presented, and a token is there that is accepted for the next four hours. -/
theorem Accepted.renewed {u : UserId} (h : Accepted lib secret u s) (hsigns : lib.Signs secret)
    (hencode : ∀ c, ∃ token, lib.encode c secret = .ok token) {i : ι} (hi : s.stage i = .idle) (d : Nat)
    (hd : d ≤ expires) : ∃ t, Continued lib secret u s t ∧ t.now = s.now + d ∧ t.stage i = .idle ∧
      Accepted lib secret u t := by
  obtain ⟨⟨c, token⟩, hp, rfl, hdecode⟩ := h
  obtain ⟨token', htoken'⟩ := hencode (.new c.sub s.now)
  have hunforged : Unforged lib secret s token := fun _ _ _ => List.mem_map.mpr ⟨_, hp, rfl⟩
  have hstart : Continued lib secret c.sub s s := .refl
  have hrefresh := hstart.step (.refresh i token false) hunforged fun _ h => nomatch h
  rw [show s.step lib secret (.refresh i token false) = s.goTo i (.decoded c false s.now) by
    simp only [Sessions.step, refreshToken, hi, hdecode]] at hrefresh
  have hrenew := hrefresh.step (.renew i) trivial fun _ h => nomatch h
  rw [show (s.goTo i (.decoded c false s.now)).step lib secret (.renew i) =
      { (s.goTo i (.decoded c false s.now)).goTo i .idle with
        held := s.held ++ [(.new c.sub s.now, token')]
        log := s.log ++ [.refresh c.sub c.iat s.now s.now] } by
    simp [Sessions.step, Sessions.goTo, htoken']] at hrenew
  refine ⟨_, hrenew.step (.tick d) trivial (fun _ h => nomatch h), rfl, Function.update_self .., ?_⟩
  refine ⟨(.new c.sub s.now, token'), List.mem_append_right _ (List.mem_singleton_self _), rfl, ?_⟩
  refine (hsigns _ _ htoken' _ _).mpr ⟨rfl, ?_⟩
  simp only [Sessions.step, Sessions.goTo, TokenClaims.new, leeway]
  omega

/-- An accepted token keeps a user logged in for as long as it pleases. -/
theorem Accepted.kept {u : UserId} (hsigns : lib.Signs secret)
    (hencode : ∀ c, ∃ token, lib.encode c secret = .ok token) (i : ι) (n : Nat) {s : Sessions ι}
    (h : Accepted lib secret u s) (hi : s.stage i = .idle) {d : Nat} (hd : d ≤ expires * n) :
    ∃ t, Continued lib secret u s t ∧ t.now = s.now + d ∧ Accepted lib secret u t := by
  induction n generalizing s d with
  | zero =>
    obtain rfl : d = 0 := by simpa using hd
    exact ⟨s, .refl, by simp, h⟩
  | succ n ih =>
    by_cases hle : (d : Int) ≤ expires
    · obtain ⟨t, hcont, hnow, -, haccepted⟩ := h.renewed hsigns hencode hi d hle
      exact ⟨t, hcont, hnow, haccepted⟩
    · obtain ⟨r, hfirst, hnow, hidle, haccepted⟩ := h.renewed hsigns hencode hi expires.toNat (by decide)
      have hrest : ((d - expires.toNat : Nat) : Int) ≤ expires * n := by
        push_cast [Int.mul_add] at hd
        simp only [expires] at *
        omega
      obtain ⟨t, hcont, hlater, hkept⟩ := ih haccepted hidle hrest
      refine ⟨t, hfirst.trans hcont, ?_, hkept⟩
      rw [hlater, hnow]
      simp only [expires] at *
      omega

/-- While no request of the user is under way: a token of the user can be accepted at a later time without
another login if and only if one is accepted now. It makes no difference how long ago the login was, and
whether the user has logged out or has another password since. -/
theorem session_continues_iff (hsigns : lib.Signs secret)
    (hencode : ∀ c, ∃ token, lib.encode c secret = .ok token) (h : SessionRun lib secret s) {u : UserId}
    (hnone : ∀ i, ¬ (s.stage i).Concerns u) {i : ι} (hi : s.stage i = .idle) (d : Nat) :
    (∃ t, Continued lib secret u s t ∧ t.now = s.now + d ∧ Accepted lib secret u t) ↔
      Accepted lib secret u s := by
  constructor
  · rintro ⟨t, hcont, -, p, hp, hu, hdecode⟩
    by_contra hnot
    have hsound := h.sound hsigns
    have hlapsed : Lapsed u s := by
      refine ⟨fun q hq hqu => ?_, hnone⟩
      by_contra hle
      exact hnot ⟨q, hq, hqu, (hsigns _ _ (hsound.held q hq).signed _ _).mpr ⟨rfl, by omega⟩⟩
    have hgone := (hcont.lapsed hsigns h hlapsed).held p hp hu
    have hsigned := (((hcont.run h).sound hsigns).held p hp).signed
    have hle := ((hsigns _ _ hsigned _ _).mp hdecode).2
    omega
  · intro haccepted
    refine haccepted.kept hsigns hencode i d hi ?_
    simp only [expires]
    omega

end

/-- A token that counts to a number, which stands for the secret and the claims. -/
@[irreducible] def countedToken (secret : String) (c : TokenClaims) : String :=
  String.ofList <| List.replicate
    (Encodable.encode (secret.toList.map Char.toNat, c.sub.toList.map Char.toNat, c.exp, c.iat)) 'x'

@[irreducible] def countedClaims (now : Int) (token secret : String) : Except JwtError TokenClaims :=
  match (Encodable.decode token.length : Option (List Nat × List Nat × Int × Int)) with
  | none => .error .invalidToken
  | some (key, sub, exp, iat) =>
    if key ≠ secret.toList.map Char.toNat then .error .other
    else if now ≤ exp + leeway then .ok ⟨String.ofList (sub.map Char.ofNat), exp, iat⟩
    else .error .expiredSignature

def countedTokens : LoginLibraries where
  encode c secret := .ok (countedToken secret c)
  decode := countedClaims
  verify hash password := .ok (hash = password)
  decodePwd := .ok

theorem countedTokens_signs (secret : String) : countedTokens.Signs secret := by
  intro c token htoken now c'
  cases htoken
  change countedClaims now (countedToken secret c) secret = .ok c' ↔ _
  have hchars : Char.ofNat ∘ Char.toNat = id := funext Char.ofNat_toNat
  unfold countedClaims countedToken
  simp only [String.length_ofList, List.length_replicate, Encodable.encodek, ne_eq,
    not_true_eq_false, if_false, List.map_map, hchars, List.map_id, String.ofList_toList]
  split
  · rename_i hle
    exact ⟨fun h => ⟨(Except.ok.inj h).symm, hle⟩, fun h => congrArg Except.ok h.1.symm⟩
  · rename_i hle
    exact ⟨fun h => (nomatch h), fun h => absurd h.2 hle⟩

/-- Ann's account, whose hash is the password. -/
def annRow : LoginRow := ⟨"ann", "ann", none, none, "pw"⟩

def annRows : Table LoginRow.id := ⟨[annRow], by decide⟩

/-- A login of Ann at the start of the clock. -/
def annLogin (lib : LoginLibraries) (secret : String) : Sessions Unit :=
  ((((Sessions.start 0 annRows []).step lib secret (.login () ⟨"ann", "pw"⟩)).step lib secret
    (.sign ())).step lib secret (.enter () true true)).step lib secret (.grant () true)

theorem annLogin_run (lib : LoginLibraries) (secret : String) : SessionRun lib secret (annLogin lib secret) :=
  .step (.grant () true) (.step (.enter () true true) (.step (.sign ())
    (.step (.login () ⟨"ann", "pw"⟩) (.start 0 annRows []) trivial) trivial) trivial) trivial

theorem annLogin_held {lib : LoginLibraries} {secret token refreshToken : String}
    (htoken : lib.encode (.new "ann" 0) secret = .ok token)
    (hrefresh : lib.encode (TokenClaims.new "ann" 0).prolonged secret = .ok refreshToken)
    (hpwd : lib.decodePwd "pw" = .ok "pw") (hverify : lib.verify "pw" "pw" = .ok true) :
    (annLogin lib secret).now = 0 ∧ (.new "ann" 0, token) ∈ (annLogin lib secret).held ∧
      (annLogin lib secret).stage () = .idle := by
  have hfound : SessionOp.loggingIn lib annRows (.login () ⟨"ann", "pw"⟩ : SessionOp Unit) =
      some (annRow, .byPassword "ann" "pw") := by
    simp [SessionOp.loggingIn, LoginRequest.decode, verifyPwd, LoginRow.named, annRows, annRow, hpwd, hverify,
      Except.map]
  simp [annLogin, Sessions.step, Sessions.start, Sessions.verifiedAs, Sessions.goTo, Sessions.userLogin,
    hfound, htoken, hrefresh, annRow]

theorem countedTokens_encode (c : TokenClaims) (secret : String) :
    countedTokens.encode c secret = .ok (countedToken secret c) := rfl

theorem countedTokens_accepts (secret : String) : countedTokens.decode 0
    (countedToken secret (.new "ann" 0)) secret = .ok (.new "ann" 0) :=
  (countedTokens_signs secret _ _ (countedTokens_encode _ _) 0 _).mpr ⟨rfl, by decide⟩

theorem annLogin_counted (secret : String) : (annLogin countedTokens secret).now = 0 ∧
    (.new "ann" 0, countedToken secret (.new "ann" 0)) ∈ (annLogin countedTokens secret).held ∧
    (annLogin countedTokens secret).stage () = .idle :=
  annLogin_held (countedTokens_encode _ _) (countedTokens_encode _ _) rfl (by simp [countedTokens])

theorem connection_descends_ann : ∃ iat, Descends countedTokens (annLogin countedTokens "key").log "ann" iat ∧
    iat ≤ (annLogin countedTokens "key").now ∧ (annLogin countedTokens "key").now ≤ iat + longest := by
  obtain ⟨hnow, hheld, -⟩ := annLogin_counted "key"
  have hunforged : Unforged countedTokens "key" (annLogin countedTokens "key")
      (countedToken "key" (.new "ann" 0)) := fun _ _ _ => List.mem_map.mpr ⟨_, hheld, rfl⟩
  have hdecode : (countedTokens.libraries (annLogin countedTokens "key").now (fun _ => none)
      fun _ => none).decode (countedToken "key" (.new "ann" 0)) "key" = .ok ⟨"ann"⟩ := by
    rw [hnow]
    exact congrArg (Except.map fun claims : TokenClaims => (⟨claims.sub⟩ : Claims))
      (countedTokens_accepts "key")
  exact connection_descends (countedTokens_signs "key") (annLogin_run _ _) hunforged (fun _ => none)
    (fun _ => none) (WsServer.verifyToken_ok.mpr ⟨hdecode, rfl⟩)

theorem annLogin_accepted : Accepted countedTokens "key" "ann" (annLogin countedTokens "key") := by
  obtain ⟨hnow, hheld, -⟩ := annLogin_counted "key"
  have hdecode : countedTokens.decode (annLogin countedTokens "key").now
      (countedToken "key" (.new "ann" 0)) "key" = .ok (.new "ann" 0) := by
    rw [hnow]
    exact countedTokens_accepts "key"
  exact ⟨_, hheld, rfl, hdecode⟩

/-- A year later, without another login. -/
theorem session_continues_iff_ann : ∃ t : Sessions Unit,
    Continued countedTokens "key" "ann" (annLogin countedTokens "key") t ∧
      t.now = (annLogin countedTokens "key").now + (31536000 : Nat) ∧ Accepted countedTokens "key" "ann" t := by
  obtain ⟨-, -, hidle⟩ := annLogin_counted "key"
  have hnone : ∀ i, ¬ ((annLogin countedTokens "key").stage i).Concerns "ann" := by
    intro i
    rw [hidle]
    exact id
  exact (session_continues_iff (countedTokens_signs "key") (fun c => ⟨_, countedTokens_encode c "key"⟩)
    (annLogin_run _ _) hnone hidle 31536000).mpr annLogin_accepted

end Sandcat
