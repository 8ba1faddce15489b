import Sandcat.RpcErrors
import Sandcat.Lib.Words

/-!
# The authorization header

Two extractors read the same header, one before a body and one before a path. What is signed with the
secret of the server is a given: `decode` is the check of a token, with the text of its error.
-/

namespace Sandcat

open Bincode (Bytes)
open Words (words IsWord)

/-- What an extractor ends with instead of a value. -/
inductive Fault where
  | rejection (status : Nat) (e : ErrorValue)
  | panic
  deriving DecidableEq, Repr

/-- `char::is_whitespace`. -/
def isWhitespace (c : Char) : Bool :=
  (9 ≤ c.toNat && c.toNat ≤ 13) || c.toNat == 0x20 || c.toNat == 0x85 || c.toNat == 0xA0 ||
    c.toNat == 0x1680 || (0x2000 ≤ c.toNat && c.toNat ≤ 0x200A) || c.toNat == 0x2028 ||
    c.toNat == 0x2029 || c.toNat == 0x202F || c.toNat == 0x205F || c.toNat == 0x3000

/-- `str::split_whitespace`. -/
def splitWhitespace (s : String) : List String := (words isWhitespace s.toList).map String.ofList

/-- `HeaderValue::to_str`: the visible characters of ASCII, the space and the tab. -/
def toStr (header : Bytes) : Option String :=
  if header.all fun b => (32 ≤ b.toNat && b.toNat < 127) || b.toNat == 9 then
    some (String.ofList (header.map fun b => Char.ofNat b.toNat))
  else none

def BEARER : String := "Bearer"

def ErrorValue.unauthorizedWithDetails (path : String) : ErrorValue := ⟨.unAuthorized, some path⟩

/-- The part the extractors have in common; `refuse` answers an error of the token. -/
def authorize (decode : String → Except String Unit) (refuse : String → Fault) (path : String)
    (header : Option Bytes) : Except Fault Unit :=
  match header with
  | some header =>
    let header := (toStr header).getD ""
    if BEARER.toList.isPrefixOf header.toList then
      match (splitWhitespace header)[1]? with
      | some token =>
        match decode token with
        | .ok () => .ok ()
        | .error err => .error (refuse err)
      | none => .error .panic
    else .error (.rejection 401 (.unauthorizedWithDetails path))
  | none => .error (.rejection 401 (.unauthorizedWithDetails path))

namespace JsonWithAuthExtractor

def authorize (decode : String → Except String Unit) (matchedPath : Option String)
    (header : Option Bytes) : Except Fault Unit :=
  Sandcat.authorize decode (fun err => .rejection 500 ⟨.internalServer, some err⟩)
    (matchedPath.getD "") header

/-- `from_request`; `body` is what `axum::Json` makes of the body, or its rejection. -/
def fromRequest {T : Type} (decode : String → Except String Unit) (matchedPath : Option String)
    (header : Option Bytes) (body : Except (Nat × String) T) : Except Fault T := do
  authorize decode matchedPath header
  match body with
  | .ok value => .ok value
  | .error (status, bodyText) => .error (.rejection status ⟨.bodyParsing, some bodyText⟩)

end JsonWithAuthExtractor

/-- `axum::extract::rejection::PathRejection`, with its text. -/
inductive PathRejection where
  | failedToDeserializePathParams (inner : String)
  | missingPathParams (error : String)
  | other (rejection : String)

namespace PathWithAuthExtractor

def authorize (decode : String → Except String Unit) (matchedPath : Option String)
    (header : Option Bytes) : Except Fault Unit :=
  Sandcat.authorize decode
    (fun _ => .rejection 401 (.unauthorizedWithDetails (matchedPath.getD "")))
    (matchedPath.getD "") header

/-- `from_request_parts`; `params` is what `axum::extract::Path` makes of the path. -/
def fromRequestParts {T : Type} (decode : String → Except String Unit)
    (matchedPath : Option String) (header : Option Bytes) (params : Except PathRejection T) :
    Except Fault T := do
  authorize decode matchedPath header
  match params with
  | .ok value => .ok value
  | .error (.failedToDeserializePathParams inner) =>
    .error (.rejection 400 ⟨.pathParsing, some inner⟩)
  | .error (.missingPathParams error) => .error (.rejection 500 ⟨.pathParsing, some error⟩)
  | .error (.other rejection) =>
    .error (.rejection 500
      ⟨.internalServer, some ("Unhandled path rejection: " ++ rejection)⟩)

end PathWithAuthExtractor

/-- The text of the header, empty where there is none. -/
def headerText (header : Option Bytes) : String := (header.bind toStr).getD ""

/-- The word, a gap and one token that decodes. -/
def Grants (decode : String → Except String Unit) (text : String) : Prop :=
  ∃ gap token, text.toList = BEARER.toList ++ gap ++ token ∧ gap ≠ [] ∧
    (∀ c ∈ gap, isWhitespace c = true) ∧ IsWord isWhitespace token ∧
    decode (String.ofList token) = .ok ()

/-- Neither extractor panics, whatever follows the header, and both go on exactly at the headers that
grant it. -/
structure AuthorizationExact (decode : String → Except String Unit) (matchedPath : Option String)
    (header : Option Bytes) : Prop where
  json_total : ∀ (T : Type) (body : Except (Nat × String) T),
    JsonWithAuthExtractor.fromRequest decode matchedPath header body ≠ .error .panic
  path_total : ∀ (T : Type) (params : Except PathRejection T),
    PathWithAuthExtractor.fromRequestParts decode matchedPath header params ≠ .error .panic
  json_exact : JsonWithAuthExtractor.authorize decode matchedPath header = .ok () ↔
    Grants decode (headerText header)
  agree : PathWithAuthExtractor.authorize decode matchedPath header = .ok () ↔
    JsonWithAuthExtractor.authorize decode matchedPath header = .ok ()

/-- After the prefix comes a second word, and if it decodes the two words are all there is. -/
def WellPlaced (decode : String → Except String Unit) (text : String) : Prop :=
  BEARER.toList <+: text.toList →
    ∃ token, (splitWhitespace text)[1]? = some token ∧
      (decode token = .ok () → splitWhitespace text = [BEARER, token] ∧
        ∀ c ∈ text.toList.getLast?, isWhitespace c = false)

section Header

variable {decode : String → Except String Unit} {refuse : String → Fault} {path : String}
  {matchedPath : Option String} {header : Option Bytes} {text : String}

theorem isWord_bearer : IsWord isWhitespace BEARER.toList := by
  have hletters : BEARER.toList = ['B', 'e', 'a', 'r', 'e', 'r'] := by simp [BEARER]
  rw [hletters]
  exact ⟨by simp, by simp [isWhitespace]⟩

theorem splitWhitespace_eq_pair_iff {a b : String} :
    splitWhitespace text = [a, b] ↔ words isWhitespace text.toList = [a.toList, b.toList] := by
  constructor
  · intro h
    have hmap := congrArg (List.map String.toList) h
    simpa [splitWhitespace, List.map_map, Function.comp_def] using hmap
  · intro h
    simp [splitWhitespace, h]

/-- What the header grants is what the split finds, with nothing around it. -/
theorem grants_iff : Grants decode text ↔
    ∃ token, splitWhitespace text = [BEARER, token] ∧ decode token = .ok () ∧
      (∀ c ∈ text.toList.head?, isWhitespace c = false) ∧
      ∀ c ∈ text.toList.getLast?, isWhitespace c = false := by
  constructor
  · rintro ⟨gap, token, htext, hne, hgap, htoken, hdecode⟩
    obtain ⟨hwords, hhead, hlast⟩ :=
      Words.words_pair_iff.mpr ⟨isWord_bearer, htoken, gap, hne, hgap, htext⟩
    refine ⟨String.ofList token, ?_, hdecode, hhead, hlast⟩
    rw [splitWhitespace_eq_pair_iff, hwords, String.toList_ofList]
  · rintro ⟨token, hsplit, hdecode, hhead, hlast⟩
    obtain ⟨-, htoken, gap, hne, hgap, htext⟩ :=
      Words.words_pair_iff.mp ⟨splitWhitespace_eq_pair_iff.mp hsplit, hhead, hlast⟩
    exact ⟨gap, token.toList, htext, hne, hgap, htoken, by rwa [String.ofList_toList]⟩

theorem Grants.starts (h : Grants decode text) : BEARER.toList <+: text.toList := by
  obtain ⟨gap, token, htext, -⟩ := h
  rw [htext, List.append_assoc]
  exact List.prefix_append _ _

theorem head_of_prefix (h : BEARER.toList <+: text.toList) :
    ∀ c ∈ text.toList.head?, isWhitespace c = false := by
  obtain ⟨rest, hrest⟩ := h
  intro c hc
  rw [← hrest] at hc
  simp [BEARER] at hc
  subst hc
  rfl

/-- A header that is missing is answered as one without text. -/
theorem authorize_eq : authorize decode refuse path header =
    if BEARER.toList.isPrefixOf (headerText header).toList then
      match (splitWhitespace (headerText header))[1]? with
      | some token =>
        match decode token with
        | .ok () => .ok ()
        | .error err => .error (refuse err)
      | none => .error .panic
    else .error (.rejection 401 (.unauthorizedWithDetails path)) := by
  cases header <;> rfl

theorem authorize_ok_iff : authorize decode refuse path header = .ok () ↔
    BEARER.toList <+: (headerText header).toList ∧
      ∃ token, (splitWhitespace (headerText header))[1]? = some token ∧ decode token = .ok () := by
  rw [authorize_eq, ← List.isPrefixOf_iff_prefix]
  split
  next hstarts =>
    cases hsecond : (splitWhitespace (headerText header))[1]? with
    | none => simp
    | some token => cases hdecode : decode token <;> simp [hstarts, hdecode]
  next hstarts => simp [hstarts]

theorem authorize_panic_iff (hrefuse : ∀ err, refuse err ≠ .panic) :
    authorize decode refuse path header = .error .panic ↔
      BEARER.toList <+: (headerText header).toList ∧
        (splitWhitespace (headerText header))[1]? = none := by
  rw [authorize_eq, ← List.isPrefixOf_iff_prefix]
  split
  next hstarts =>
    cases hsecond : (splitWhitespace (headerText header))[1]? with
    | none => simp [hstarts]
    | some token =>
      simp only [reduceCtorEq, and_false, iff_false]
      cases decode token with
      | error err => simp [hrefuse err]
      | ok u => simp
  next hstarts => simp [hstarts]

/-- After the header nothing panics. -/
theorem fromRequest_panic_iff :
    (∀ (T : Type) (body : Except (Nat × String) T),
        JsonWithAuthExtractor.fromRequest decode matchedPath header body ≠ .error .panic) ↔
      ¬JsonWithAuthExtractor.authorize decode matchedPath header = .error .panic := by
  constructor
  · intro h hpanic
    exact h Unit (.ok ()) (by simp [JsonWithAuthExtractor.fromRequest, hpanic, bind, Except.bind])
  · intro h T body hpanic
    cases hauth : JsonWithAuthExtractor.authorize decode matchedPath header with
    | error e => simp_all [JsonWithAuthExtractor.fromRequest, bind, Except.bind]
    | ok u => rcases body with ⟨status, text⟩ | value <;>
        simp [JsonWithAuthExtractor.fromRequest, hauth, bind, Except.bind] at hpanic

theorem fromRequestParts_panic_iff :
    (∀ (T : Type) (params : Except PathRejection T),
        PathWithAuthExtractor.fromRequestParts decode matchedPath header params ≠ .error .panic) ↔
      ¬PathWithAuthExtractor.authorize decode matchedPath header = .error .panic := by
  constructor
  · intro h hpanic
    exact h Unit (.ok ())
      (by simp [PathWithAuthExtractor.fromRequestParts, hpanic, bind, Except.bind])
  · intro h T params hpanic
    cases hauth : PathWithAuthExtractor.authorize decode matchedPath header with
    | error e => simp_all [PathWithAuthExtractor.fromRequestParts, bind, Except.bind]
    | ok u => rcases params with (inner | error | rejection) | value <;>
        simp [PathWithAuthExtractor.fromRequestParts, hauth, bind, Except.bind] at hpanic

/-- The headers at which what the split finds and what the header grants are the same. -/
theorem wellPlaced_iff : WellPlaced decode text ↔
    ¬(BEARER.toList <+: text.toList ∧ (splitWhitespace text)[1]? = none) ∧
      (BEARER.toList <+: text.toList ∧
          (∃ token, (splitWhitespace text)[1]? = some token ∧ decode token = .ok ()) →
        Grants decode text) := by
  constructor
  · intro h
    refine ⟨?_, ?_⟩
    · rintro ⟨hstarts, hnone⟩
      obtain ⟨token, hsome, -⟩ := h hstarts
      rw [hnone] at hsome
      cases hsome
    · rintro ⟨hstarts, token, hsecond, hdecode⟩
      obtain ⟨token', hsome, hwords⟩ := h hstarts
      rw [hsecond] at hsome
      cases hsome
      obtain ⟨hsplit, hlast⟩ := hwords hdecode
      exact grants_iff.mpr ⟨token, hsplit, hdecode, head_of_prefix hstarts, hlast⟩
  · rintro ⟨hpanic, hgrants⟩ hstarts
    cases hsecond : (splitWhitespace text)[1]? with
    | none => exact absurd ⟨hstarts, hsecond⟩ hpanic
    | some token =>
      refine ⟨token, rfl, fun hdecode => ?_⟩
      obtain ⟨token', hsplit, -, -, hlast⟩ := grants_iff.mp (hgrants ⟨hstarts, token, hsecond, hdecode⟩)
      have htoken : token' = token := by simpa [hsplit] using hsecond
      exact ⟨htoken ▸ hsplit, hlast⟩

end Header

/-- The extractors are exact at a header if and only if it does not start with the prefix, or has a
second word and, when that word decodes, nothing besides the two. -/
theorem authorization_exact_iff (decode : String → Except String Unit)
    (matchedPath : Option String) (header : Option Bytes) :
    AuthorizationExact decode matchedPath header ↔ WellPlaced decode (headerText header) := by
  have hjson : JsonWithAuthExtractor.authorize decode matchedPath header = .error .panic ↔ _ :=
    authorize_panic_iff (by simp)
  have hpath : PathWithAuthExtractor.authorize decode matchedPath header = .error .panic ↔ _ :=
    authorize_panic_iff (by simp)
  have hok : JsonWithAuthExtractor.authorize decode matchedPath header = .ok () ↔ _ :=
    authorize_ok_iff
  have hagree : PathWithAuthExtractor.authorize decode matchedPath header = .ok () ↔
      JsonWithAuthExtractor.authorize decode matchedPath header = .ok () :=
    authorize_ok_iff.trans hok.symm
  rw [wellPlaced_iff]
  constructor
  · intro h
    refine ⟨?_, ?_⟩
    · rw [← hjson]
      exact fromRequest_panic_iff.mp h.json_total
    · rw [← hok]
      exact h.json_exact.mp
  · rintro ⟨hpanic, hgrants⟩
    refine ⟨?_, ?_, ⟨?_, ?_⟩, hagree⟩
    · rw [fromRequest_panic_iff, hjson]
      exact hpanic
    · rw [fromRequestParts_panic_iff, hpath]
      exact hpanic
    · rw [hok]
      exact hgrants
    · intro h
      obtain ⟨token, hsplit, hdecode, -⟩ := grants_iff.mp h
      exact hok.mpr ⟨h.starts, token, by rw [hsplit]; rfl, hdecode⟩

/-- The word alone makes the extractors panic; a prefix that is glued to other letters, or a third
word, lets the request pass. -/
theorem authorization_not_exact :
    let decode : String → Except String Unit := fun s => if s = "t" then .ok () else .error "bad"
    ¬AuthorizationExact decode none (some [66, 101, 97, 114, 101, 114]) ∧
      ¬AuthorizationExact decode none (some [66, 101, 97, 114, 101, 114, 120, 32, 116]) ∧
      ¬AuthorizationExact decode none (some [66, 101, 97, 114, 101, 114, 32, 116, 32, 117]) := by
  intro decode
  refine ⟨?_, ?_, ?_⟩
  · intro h
    exact h.json_total Unit (.ok ()) (by rfl)
  · intro h
    obtain ⟨token, hsplit, -⟩ := grants_iff.mp (h.json_exact.mp (by rfl))
    have hhead : _ = some BEARER := congrArg List.head? hsplit
    exact absurd hhead (by decide)
  · intro h
    obtain ⟨token, hsplit, -⟩ := grants_iff.mp (h.json_exact.mp (by rfl))
    have hlength : _ = 2 := congrArg List.length hsplit
    exact absurd hlength (by decide)

end Sandcat
