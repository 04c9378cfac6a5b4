import NewsApi.Http.Conditional
import NewsApi.Types.Search

/-! # Enveloped responses

`sha256` is the runtime's digest, `fresh` the framework's own test of a request
against the entity tag of its response. -/
namespace NewsApi.Http
open NewsApi.Text NewsApi.Types NewsApi.Errors

structure Request where
  /-- `req.id`, where it is a string -/
  id : Option JsString
  xRequestId : Option HeaderValue
  ifNoneMatch : Option HeaderValue

structure Response where
  status : Nat
  headers : List (String × JsString)
  body : Option JsString

def Response.etag (res : Response) : Option JsString := res.headers.lookup "ETag"

def MAX_REQUEST_ID_LENGTH : Nat := 128

def isAlphanumeric (c : CodeUnit) : Bool :=
  (0x41 ≤ c && c ≤ 0x5A) || (0x61 ≤ c && c ≤ 0x7A) || isDigit c

/-- `/^[A-Za-z0-9][A-Za-z0-9._:/~-]*$/` -/
def isRequestId : JsString → Bool
  | [] => false
  | c :: rest => isAlphanumeric c && rest.all fun c => isAlphanumeric c || (js "._:/~-").contains c

def normalizeRequestId : Option HeaderValue → Option JsString
  | some (.str value) =>
    let normalized := trim value
    if MAX_REQUEST_ID_LENGTH < normalized.length || !isRequestId normalized then none
    else some normalized
  | _ => none

def requestId (req : Request) : JsString :=
  ((normalizeRequestId (req.id.map .str)).or (normalizeRequestId req.xRequestId)).getD
    (js "unknown")

/-- The own members of an object. -/
abbrev Meta := List (JsString × JsonValue)

/-- `{ ...members, [name]: value }` -/
def setMember (members : Meta) (name : JsString) (value : JsonValue) : Meta :=
  if members.any (·.1 == name) then
    members.map fun member => if member.1 == name then (name, value) else member
  else members ++ [(name, value)]

def isStable (member : JsString × JsonValue) : Bool :=
  member.1 != js "cache" && member.1 != js "requestId"

def envelope (data : JsonValue) (members : Meta) : JsonValue :=
  .obj [(js "data", data), (js "meta", .obj members)]

def envelopeMeta (req : Request) (members : Meta) : Meta :=
  setMember members (js "requestId") (.str (requestId req))

section
variable (sha256 : List UInt8 → Digest) (fresh : Request → JsString → Bool)

def cacheHeader (members : Meta) : List (String × JsString) :=
  match members.lookup (js "cache") with
  | some (.str cache) => if (trim cache).isEmpty then [] else [("X-Cache-Status", cache)]
  | _ => []

def responseHeaders (members : Meta) (entityTag : JsString) : List (String × JsString) :=
  [("X-API-Version", js "v1"), ("Cache-Control", js "private, no-cache")] ++
    cacheHeader members ++ [("ETag", entityTag)]

/-- `send` answers 304 too where the request is fresh. -/
def sendEnvelope (req : Request) (data : JsonValue) (members : Meta) : Except JsError Response := do
  let body := envelope data (envelopeMeta req members)
  let validatorMeta := (envelopeMeta req members).filter isStable
  let entityTag ← createWeakEntityTag sha256 (envelope data validatorMeta)
  let headers := responseHeaders members entityTag
  if matchesIfNoneMatch req.ifNoneMatch entityTag || fresh req entityTag then
    return ⟨304, headers, none⟩
  return ⟨200, headers, stringify body⟩

end

/-! ## Conditional revalidation -/

/-- The JSON of a response apart from what changes from request to request. -/
def stableJson (data : JsonValue) (members : Meta) : Option JsString :=
  stringify (envelope data (members.filter isStable))

theorem filter_replaced {name : JsString} {value : JsonValue} (h : ∀ v, isStable (name, v) = false)
    (members : Meta) :
    (members.map fun member => if member.1 == name then (name, value) else member).filter isStable =
      members.filter isStable := by
  induction members with
  | nil => rfl
  | cons member members ih =>
    rw [List.map_cons, List.filter_cons, List.filter_cons, ih]
    split
    · rename_i he
      have hmember : isStable member = false := by
        rw [← h member.2, ← beq_iff_eq.mp he]
      rw [h, hmember]
      rfl
    · rfl

theorem filter_setMember {name : JsString} {value : JsonValue}
    (h : ∀ v, isStable (name, v) = false) (members : Meta) :
    (setMember members name value).filter isStable = members.filter isStable := by
  unfold setMember
  split
  · exact filter_replaced h members
  · rw [List.filter_append, List.filter_cons_of_neg (by rw [h]; exact Bool.false_ne_true),
      List.filter_nil, List.append_nil]

theorem envelopeMeta_stable (req : Request) (members : Meta) :
    (envelopeMeta req members).filter isStable = members.filter isStable :=
  filter_setMember (fun _ => rfl) members

section
variable {sha256 : List UInt8 → Digest} {fresh : Request → JsString → Bool}

/-- What every response carries. -/
theorem sendEnvelope_ok (req : Request) (data : JsonValue) (members : Meta) :
    ∃ text res, stableJson data members = some text ∧ isWellFormed text = true ∧
      sendEnvelope sha256 fresh req data members = .ok res ∧
      res.etag = some (tagOf sha256 text) ∧
      (res.status = 304 ↔ (matchesIfNoneMatch req.ifNoneMatch (tagOf sha256 text) ||
        fresh req (tagOf sha256 text)) = true) := by
  obtain ⟨text, htext⟩ : ∃ text, stableJson data members = some text := ⟨_, rfl⟩
  refine ⟨text, ?_⟩
  have htag : createWeakEntityTag sha256
      (envelope data ((envelopeMeta req members).filter isStable)) = .ok (tagOf sha256 text) := by
    rw [envelopeMeta_stable, createWeakEntityTag, show stringify _ = some text from htext]
  have hetag : ∀ status body, (Response.mk status (responseHeaders members (tagOf sha256 text))
      body).etag = some (tagOf sha256 text) := by
    intro status body
    unfold Response.etag responseHeaders cacheHeader
    split
    · split <;> rfl
    · rfl
  have hsend : sendEnvelope sha256 fresh req data members =
      if matchesIfNoneMatch req.ifNoneMatch (tagOf sha256 text) ||
        fresh req (tagOf sha256 text) then
        .ok ⟨304, responseHeaders members (tagOf sha256 text), none⟩
      else .ok ⟨200, responseHeaders members (tagOf sha256 text),
        stringify (envelope data (envelopeMeta req members))⟩ := by
    simp only [sendEnvelope]
    rw [htag]
    rfl
  rw [hsend]
  cases h : matchesIfNoneMatch req.ifNoneMatch (tagOf sha256 text) ||
    fresh req (tagOf sha256 text) with
  | true =>
    exact ⟨_, htext, stringify_wellFormed _ text htext, rfl, hetag _ _, by simp⟩
  | false =>
    exact ⟨_, htext, stringify_wellFormed _ text htext, rfl, hetag _ _, by simp⟩

/-- Stable JSON without articles, and its digest. -/
def sampleText : JsString :=
  js "\x7b\"data\":[],\"meta\":\x7b\"query\":\"q\",\"filters\":\x7b\x7d\x7d\x7d"

def sampleSha256 (bytes : List UInt8) : Digest :=
  if bytes = utf8 sampleText then
    #v[11, 213, 44, 17, 142, 153, 165, 228, 29, 75, 13, 45, 252, 215, 117, 145,
      63, 196, 175, 133, 145, 56, 80, 254, 30, 124, 59, 142, 128, 3, 158, 60]
  else Vector.replicate 32 0

end

end NewsApi.Http
