import PyClaw.Lib.Base64
import PyClaw.Lib.JsonData
import PyClaw.Lib.PyFloat
import PyClaw.Lib.Text
import PyClaw.Lib.Utf8

/-!
# Channels.WebAuth

The tokens of the web channel: `POST /api/auth/token` issues them, `verify_jwt` reads them. HMAC-SHA256 is a
parameter. A token that is presented is a list of code points, since one that came as JSON can have lone
surrogates.

* `verify_issued`: an issued token is its user's until it expires.
* `accepted_issued`: a token without a forged signature is accepted only where one with the same claims was
  issued for the right password.
-/

namespace PyClaw

/-- `text.encode()`. -/
def utf8 (text : List Char) : List UInt8 := Utf8.encodeAll (Utf8.points text)

structure TokenRequest where
  userId : List Char
  password : List Char

inductive IssueError where
  /-- `compare_digest` takes no strings with characters beyond ASCII. -/
  | typeError
  /-- 401. -/
  | invalidCredentials

inductive VerifyError where
  /-- `payload.get` of what is no object. -/
  | attributeError
  | unicodeEncodeError

/-- The settings, and what is left open of the standard library. -/
structure WebAuth where
  /-- `hmac.new(key, message, hashlib.sha256).digest()`. -/
  hmac : List UInt8 → List UInt8 → List UInt8
  /-- How `json.loads` decodes bytes that are no plain ASCII. -/
  decodeOther : List UInt8 → Option (List Char)
  float : List Char → PyFloat
  secret : List Char
  /-- Ids with their passwords. -/
  users : List (List Char × List Char)

namespace WebAuth

open Utf8 (points textOf)

def tokenSeconds : Int := 86400

/-! ## Issuing -/

def jwtHeader : JsonValue := .obj [("alg".toList, .str "HS256".toList), ("typ".toList, .str "JWT".toList)]

/-- `now` is `int(time.time())`. -/
def claims (userId : List Char) (now expiresIn : Int) : JsonValue :=
  .obj [("sub".toList, .str userId), ("iat".toList, .int now), ("exp".toList, .int (now + expiresIn))]

def part (v : JsonValue) : List Char := Base64.urlEncode (utf8 (Json.dumps true v))

/-- What is signed: the header and the payload. -/
def message (userId : List Char) (now expiresIn : Int) : List Char :=
  part jwtHeader ++ '.' :: part (claims userId now expiresIn)

section
variable (a : WebAuth)

def sign (text : List Char) : List UInt8 := a.hmac (utf8 a.secret) (utf8 text)

def createJwt (userId : List Char) (now expiresIn : Int) : List Char :=
  message userId now expiresIn ++ '.' :: Base64.urlEncode (a.sign (message userId now expiresIn))

/-- The loop of `issue_token`. -/
def checkCredentials (body : TokenRequest) : List (List Char × List Char) → Except IssueError Unit
  | [] => .error .invalidCredentials
  | (id, password) :: users =>
    if id = body.userId then
      if (password ++ body.password).all fun c => c.toNat < 128 then
        if password = body.password then .ok () else checkCredentials body users
      else .error .typeError
    else checkCredentials body users

def issueToken (body : TokenRequest) (time : Rat) : Except IssueError (List Char) :=
  match checkCredentials body a.users with
  | .ok _ => .ok (a.createJwt body.userId time.floor tokenSeconds)
  | .error e => .error e

/-! ## Verifying -/

/-- `s.decode(detect_encoding(s))`: ASCII without NUL is read as it is. -/
def decodeBytes (bytes : List UInt8) : Option (List Char) :=
  if bytes.all fun b => 0 < b.toNat && b.toNat < 128 then some (bytes.map fun b => Char.ofNat b.toNat)
  else a.decodeOther bytes

/-- `isinstance(exp, (int, float)) and time.time() > exp`. -/
def expired (time : Rat) : Option JsonValue → Bool
  | some (.int n) => n < time
  | some (.bool b) => (if b then 1 else 0) < time
  | some (.float literal) => PyFloat.lt (a.float literal) (.finite time)
  | _ => false

/-- `json.loads` of a part; none is any exception. -/
def loadPart (text : List Char) : Option JsonValue :=
  ((Base64.urlDecode text).bind a.decodeBytes).bind Json.loads

/-- What a payload says. -/
def subject (time : Rat) : JsonValue → Except VerifyError (Option (List Char))
  | .obj entries =>
    if a.expired time (entries.lookup "exp".toList) then .ok none
    else
      match entries.lookup "sub".toList with
      | some (.str userId) => .ok (some userId)
      | _ => .ok none
  | _ => .error .attributeError

def verifyJwt (time : Rat) (token : List Nat) : Except VerifyError (Option (List Char)) :=
  match token.splitOn '.'.toNat with
  | [header, payload, signature] =>
    match textOf header, textOf payload with
    | some header, some payload =>
      match (textOf signature).bind Base64.urlDecode with
      | none => .ok none
      | some actual =>
        if a.sign (header ++ '.' :: payload) = actual then
          match a.loadPart payload with
          | some v => a.subject time v
          | none => .ok none
        else .ok none
    -- the message is encoded outside any `try`
    | _, _ => .error .unicodeEncodeError
  | _ => .ok none

end

/-! ## What was issued -/

section
variable {a : WebAuth} {userId : List Char} {now expiresIn : Int} {time : Rat}

theorem utf8_ascii {text : List Char} (h : ∀ c ∈ text, Json.Ascii c) :
    utf8 text = text.map fun c => UInt8.ofNat c.toNat := by
  induction text with
  | nil => rfl
  | cons c text ih =>
    have hc := h c List.mem_cons_self
    have hrest := ih fun x hx => h x (List.mem_cons_of_mem c hx)
    have hpoint : Utf8.encodePoint c.toNat = [UInt8.ofNat c.toNat] := if_pos hc.2
    rw [utf8, Utf8.points, Utf8.encodeAll, List.map_cons, List.flatMap_cons, hpoint, List.map_cons, ← hrest]
    rfl

theorem decodeBytes_utf8 {text : List Char} (h : ∀ c ∈ text, Json.Ascii c) :
    a.decodeBytes (utf8 text) = some text := by
  have hbyte : ∀ c ∈ text, (UInt8.ofNat c.toNat).toNat = c.toNat := fun c hc => by
    have hc := (h c hc).2
    rw [UInt8.toNat_ofNat']
    omega
  rw [utf8_ascii h, decodeBytes, if_pos, List.map_map]
  · congr 1
    refine (List.map_congr_left fun c hc => ?_).trans (List.map_id text)
    rw [Function.comp, hbyte c hc, Char.ofNat_toNat, id]
  · simp only [List.all_map, List.all_eq_true, Function.comp, Bool.and_eq_true, decide_eq_true_eq]
    intro c hc
    rw [hbyte c hc]
    exact h c hc

theorem loadPart_part {v : JsonValue} (hv : Json.Proper v) : a.loadPart (part v) = some v := by
  rw [loadPart, part, Base64.urlDecode_urlEncode, Option.bind_some, decodeBytes_utf8 (Json.ascii_dumps v hv),
    Option.bind_some, Json.loads_dumps true hv]

theorem claims_proper : Json.Proper (claims userId now expiresIn) := by
  have hkeys : (["sub", "iat", "exp"].map String.toList).Nodup := by decide
  exact ⟨hkeys, trivial, trivial, trivial, trivial⟩

theorem subject_claims :
    a.subject time (claims userId now expiresIn) =
      .ok (if ((now + expiresIn : Int) : Rat) < time then none else some userId) := by
  have hexp : a.expired time (some (.int (now + expiresIn))) = decide (((now + expiresIn : Int) : Rat) < time) := rfl
  show (if a.expired time (some (.int (now + expiresIn))) then Except.ok none else Except.ok (some userId)) = _
  rw [hexp]
  by_cases h : ((now + expiresIn : Int) : Rat) < time
  · rw [decide_eq_true h, if_pos rfl, if_pos h]
  · rw [decide_eq_false h, if_neg Bool.false_ne_true, if_neg h]

theorem dot_not_mem_part (v : JsonValue) : '.' ∉ part v := Base64.dot_not_mem_urlEncode _

theorem dot_not_mem_points {text : List Char} : '.'.toNat ∉ points text ↔ '.' ∉ text := by
  rw [points, List.mem_map_of_injective fun _ _ h => Char.toNat_inj.mp h]

/-- A text with two dots. -/
theorem splitOn_three {x y z : List Char} (hx : '.' ∉ x) (hy : '.' ∉ y) (hz : '.' ∉ z) :
    (points ((x ++ '.' :: y) ++ '.' :: z)).splitOn '.'.toNat = [points x, points y, points z] := by
  have hpoints : points ((x ++ '.' :: y) ++ '.' :: z) =
      points x ++ '.'.toNat :: (points y ++ '.'.toNat :: points z) := by
    simp [points]
  rw [hpoints, List.splitOn_append_cons_self_of_not_mem (dot_not_mem_points.mpr hx),
    List.splitOn_append_cons_self_of_not_mem (dot_not_mem_points.mpr hy),
    List.splitOn_eq_singleton (dot_not_mem_points.mpr hz)]

theorem splitOn_createJwt :
    (points (a.createJwt userId now expiresIn)).splitOn '.'.toNat =
      [points (part jwtHeader), points (part (claims userId now expiresIn)),
        points (Base64.urlEncode (a.sign (message userId now expiresIn)))] :=
  splitOn_three (dot_not_mem_part _) (dot_not_mem_part _) (Base64.dot_not_mem_urlEncode _)

theorem verifyJwt_createJwt :
    a.verifyJwt time (points (a.createJwt userId now expiresIn)) =
      .ok (if ((now + expiresIn : Int) : Rat) < time then none else some userId) := by
  rw [verifyJwt, splitOn_createJwt]
  simp only [Utf8.textOf_points, Option.bind_some, Base64.urlDecode_urlEncode]
  rw [← message, if_pos rfl, loadPart_part claims_proper]
  exact subject_claims

theorem issueToken_eq_ok {body : TokenRequest} {token : List Char} (h : a.issueToken body time = .ok token) :
    checkCredentials body a.users = .ok () ∧ token = a.createJwt body.userId time.floor tokenSeconds := by
  unfold issueToken at h
  split at h
  · rename_i hcheck
    cases h
    exact ⟨hcheck, rfl⟩
  · cases h

end

/-- An issued token is accepted as its user's until a day has passed, and from then on refused. -/
theorem verify_issued (a : WebAuth) (body : TokenRequest) (issued time : Rat) (token : List Char)
    (h : a.issueToken body issued = .ok token) :
    a.verifyJwt time (points token) =
      .ok (if ((issued.floor + tokenSeconds : Int) : Rat) < time then none else some body.userId) := by
  rw [(issueToken_eq_ok h).2]
  exact verifyJwt_createJwt

/-- One user; the digest is that of the token issued at 1700000000 s. -/
def sampleAuth : WebAuth where
  hmac _ _ :=
    [166, 153, 132, 87, 61, 235, 61, 13, 87, 143, 33, 51, 67, 94, 48, 137, 197, 31,
      81, 54, 55, 7, 0, 122, 61, 210, 133, 142, 239, 91, 227, 121]
  decodeOther _ := none
  float _ := .nan
  secret := "change-me-in-production".toList
  users := [("alice".toList, "pw".toList)]

def sampleRequest : TokenRequest := { userId := "alice".toList, password := "pw".toList }

theorem issueToken_sample :
    sampleAuth.issueToken sampleRequest 1700000000 =
      .ok (sampleAuth.createJwt "alice".toList 1700000000 86400) := by
  rfl

theorem verify_issued_sample :
    sampleAuth.verifyJwt 1700086400 (points (sampleAuth.createJwt "alice".toList 1700000000 86400)) =
      .ok (some "alice".toList) :=
  (verify_issued sampleAuth sampleRequest 1700000000 1700086400 _ issueToken_sample).trans
    (congrArg Except.ok (if_neg (by decide +kernel)))

/-! ## What is accepted -/

section
variable {a : WebAuth} {userId : List Char} {now expiresIn : Int} {time : Rat}

theorem mem_of_checkCredentials {body : TokenRequest} {users : List (List Char × List Char)}
    (h : checkCredentials body users = .ok ()) : (body.userId, body.password) ∈ users := by
  induction users with
  | nil => cases h
  | cons user users ih =>
    obtain ⟨id, password⟩ := user
    unfold checkCredentials at h
    split_ifs at h with hid _ hpassword
    · rw [hid, hpassword]
      exact List.mem_cons_self
    · exact List.mem_cons_of_mem _ (ih h)
    · exact List.mem_cons_of_mem _ (ih h)

/-- The signature of the token, if it is right, is one that was issued: on the same text. -/
def Unforged (a : WebAuth) (requests : List (TokenRequest × Rat)) (token : List Nat) : Prop :=
  ∀ header payload signature, token.splitOn '.'.toNat = [points header, points payload, points signature] →
    Base64.urlDecode signature = some (a.sign (header ++ '.' :: payload)) →
    ∃ r ∈ requests, checkCredentials r.1 a.users = .ok () ∧
      header ++ '.' :: payload = message r.1.userId r.2.floor tokenSeconds

/-- The header or the payload has a lone surrogate. -/
def Unencodable (token : List Nat) : Prop :=
  ∃ header payload signature, token.splitOn '.'.toNat = [header, payload, signature] ∧
    (textOf header = none ∨ textOf payload = none)

theorem payload_of_message {header payload : List Char} (hheader : '.' ∉ header) (hpayload : '.' ∉ payload)
    (h : header ++ '.' :: payload = message userId now expiresIn) : payload = part (claims userId now expiresIn) := by
  have hsplit := congrArg (List.splitOn '.') h
  rw [message, List.splitOn_append_cons_self_of_not_mem hheader, List.splitOn_eq_singleton hpayload,
    List.splitOn_append_cons_self_of_not_mem (dot_not_mem_part _),
    List.splitOn_eq_singleton (dot_not_mem_part _)] at hsplit
  exact (List.cons.inj (List.cons.inj hsplit).2).1

end

theorem unforged_issued {a : WebAuth} {body : TokenRequest} {issued : Rat} {token : List Char}
    (h : a.issueToken body issued = .ok token) : a.Unforged [(body, issued)] (points token) := by
  obtain ⟨hcheck, rfl⟩ := issueToken_eq_ok h
  intro header payload signature hsplit _
  rw [splitOn_createJwt] at hsplit
  injection hsplit with hheader hrest
  injection hrest with hpayload _
  exact ⟨_, List.mem_singleton_self _, hcheck, by
    rw [← Utf8.points_injective hheader, ← Utf8.points_injective hpayload]; rfl⟩

section
variable {a : WebAuth} {requests : List (TokenRequest × Rat)} {token signature : List Nat} {time : Rat}

theorem verifyJwt_unencodable (h : Unencodable token) :
    a.verifyJwt time token = .error .unicodeEncodeError := by
  obtain ⟨header, payload, signature, hsplit, hnone⟩ := h
  rw [verifyJwt, hsplit]
  rcases hnone with hnone | hnone
  · simp only [hnone]
  · cases hheader : textOf header <;> simp only [hheader, hnone]

/-- A token with an encodable message is refused without an error, or its claims are those of an issued one. -/
theorem accepted_encodable {header payload : List Char} (h : a.Unforged requests token)
    (hsplit : token.splitOn '.'.toNat = [points header, points payload, signature]) :
    a.verifyJwt time token = .ok none ∨
      ∃ r ∈ requests, (r.1.userId, r.1.password) ∈ a.users ∧ time ≤ ((r.2.floor + tokenSeconds : Int) : Rat) ∧
        a.verifyJwt time token = .ok (some r.1.userId) := by
  have hparts : ∀ x ∈ [points header, points payload, signature], '.'.toNat ∉ x := fun x hx =>
    not_mem_of_mem_splitOn (hsplit ▸ hx)
  have hheader : '.' ∉ header := dot_not_mem_points.mp (hparts _ List.mem_cons_self)
  have hpayload : '.' ∉ payload :=
    dot_not_mem_points.mp (hparts _ (List.mem_cons_of_mem _ List.mem_cons_self))
  generalize hresult : a.verifyJwt time token = result
  rw [verifyJwt, hsplit] at hresult
  simp only [Utf8.textOf_points] at hresult
  split at hresult
  · exact .inl hresult.symm
  · rename_i actual hactual
    obtain ⟨signature', hsignature, hdecode⟩ := Option.bind_eq_some_iff.mp hactual
    split at hresult
    · rename_i hsign
      obtain rfl := Utf8.points_of_textOf hsignature
      obtain ⟨r, hr, hcheck, htext⟩ := h header payload signature' hsplit (hsign ▸ hdecode)
      rw [payload_of_message hheader hpayload htext, loadPart_part claims_proper] at hresult
      have hsubject := hresult.symm.trans subject_claims
      split_ifs at hsubject with hexp
      · exact .inl hsubject
      · exact .inr ⟨r, hr, mem_of_checkCredentials hcheck, not_lt.mp hexp, hsubject⟩
    · exact .inl hresult.symm

end

/-- A token that bears no forged signature cannot be encoded, or it is refused without an error, or somebody gave
the password of its user within the last day. -/
theorem accepted_issued (a : WebAuth) (requests : List (TokenRequest × Rat)) (token : List Nat)
    (h : a.Unforged requests token) (time : Rat) :
    Unencodable token ∧ a.verifyJwt time token = .error .unicodeEncodeError ∨
      ¬ Unencodable token ∧ (a.verifyJwt time token = .ok none ∨
        ∃ r ∈ requests, (r.1.userId, r.1.password) ∈ a.users ∧ time ≤ ((r.2.floor + tokenSeconds : Int) : Rat) ∧
          a.verifyJwt time token = .ok (some r.1.userId)) := by
  by_cases hbad : Unencodable token
  · exact .inl ⟨hbad, verifyJwt_unencodable hbad⟩
  · refine .inr ⟨hbad, ?_⟩
    by_cases hthree : ∃ header payload signature, token.splitOn '.'.toNat = [header, payload, signature]
    · obtain ⟨header, payload, signature, hsplit⟩ := hthree
      cases hheader : textOf header with
      | none => exact absurd ⟨header, payload, signature, hsplit, .inl hheader⟩ hbad
      | some header' =>
        cases hpayload : textOf payload with
        | none => exact absurd ⟨header, payload, signature, hsplit, .inr hpayload⟩ hbad
        | some payload' =>
          obtain rfl := Utf8.points_of_textOf hheader
          obtain rfl := Utf8.points_of_textOf hpayload
          exact accepted_encodable h hsplit
    · left
      unfold verifyJwt
      split
      · exact absurd ⟨_, _, _, ‹_›⟩ hthree
      · rfl

/-- Reading a token that bears no forged signature raises exactly if its message cannot be encoded, and one that is
accepted is that of a user whose password somebody gave within the last day. -/
theorem verifyJwt_unforged (a : WebAuth) (requests : List (TokenRequest × Rat)) (token : List Nat)
    (h : a.Unforged requests token) (time : Rat) :
    ((∃ e, a.verifyJwt time token = .error e) ↔ Unencodable token) ∧
      ∀ userId, a.verifyJwt time token = .ok (some userId) →
        ∃ r ∈ requests, r.1.userId = userId ∧ (userId, r.1.password) ∈ a.users ∧
          time ≤ ((r.2.floor + tokenSeconds : Int) : Rat) := by
  rcases accepted_issued a requests token h time with
    ⟨hbad, herror⟩ | ⟨hgood, hnone | ⟨r, hr, hmem, htime, hsome⟩⟩
  · rw [herror]
    exact ⟨iff_of_true ⟨_, rfl⟩ hbad, fun _ h => by cases h⟩
  · rw [hnone]
    exact ⟨iff_of_false (fun ⟨_, h⟩ => by cases h) hgood, fun _ h => by cases h⟩
  · rw [hsome]
    refine ⟨iff_of_false (fun ⟨_, h⟩ => by cases h) hgood, fun userId huser => ?_⟩
    cases huser
    exact ⟨r, hr, rfl, hmem, htime⟩

theorem verifyJwt_unforged_sample :
    ((∃ e, sampleAuth.verifyJwt 0 (points (sampleAuth.createJwt "alice".toList 1700000000 86400)) = .error e) ↔
        Unencodable (points (sampleAuth.createJwt "alice".toList 1700000000 86400))) ∧
      ∀ userId, sampleAuth.verifyJwt 0 (points (sampleAuth.createJwt "alice".toList 1700000000 86400)) =
          .ok (some userId) →
        ∃ r ∈ [(sampleRequest, (1700000000 : Rat))], r.1.userId = userId ∧
          (userId, r.1.password) ∈ sampleAuth.users ∧ (0 : Rat) ≤ ((r.2.floor + tokenSeconds : Int) : Rat) :=
  verifyJwt_unforged sampleAuth _ _ (unforged_issued issueToken_sample) 0

end WebAuth

end PyClaw
