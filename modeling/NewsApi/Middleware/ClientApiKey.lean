import Mathlib.Data.List.TakeWhile
import NewsApi.Errors
import NewsApi.Http.RetryAfter
import NewsApi.Text.Bytes

/-! # The client key gate

`sha256` is the runtime's digest. The setting is `CLIENT_API_KEYS`, the header
`X-API-Key`. -/
namespace NewsApi.Middleware
open NewsApi.Text NewsApi.Errors NewsApi.Http

def comma : CodeUnit := 0x2C

def parseClientKeys (setting : Option JsString) : List JsString :=
  match setting.map trim with
  | none | some [] => []
  | some raw => ((raw.splitOn comma).map trim).filter fun k => 0 < k.length

variable (sha256 : List UInt8 → Digest)

def digestClientKey (key : JsString) : Digest := sha256 (utf8 key)

/-- Digests have one length, so the comparison never throws. -/
def timingSafeEqual (a b : Digest) : Bool := a == b

def matchesClientKey (provided : JsString) (configuredKeys : List JsString) : Bool :=
  let providedDigest := digestClientKey sha256 provided
  let found := configuredKeys.foldl (fun (count : Nat) configuredKey =>
    count + (timingSafeEqual providedDigest (digestClientKey sha256 configuredKey)).toNat) 0
  0 < found

def invalidApiKeyError : HttpError where
  statusCode := 401
  message := "Invalid or missing API key"
  code := "invalid_api_key"
  retryAfter := none

/-- `next()` or `next(error)` -/
def clientApiKeyGate (setting : Option JsString) (header : Option HeaderValue) :
    Except HttpError Unit :=
  let keys := parseClientKeys setting
  if keys.length = 0 then .ok ()
  else
    match header with
    | some (.str provided) =>
      if matchesClientKey sha256 provided keys then .ok () else .error invalidApiKeyError
    | _ => .error invalidApiKeyError

/-! ## The keys of a setting -/

/-- The non-empty values of the setting, split at commas and trimmed. -/
def usableKeys (raw : JsString) : List JsString :=
  ((raw.splitOn comma).map trim).filter fun k => 0 < k.length

def AllBlank (s : JsString) : Prop := ∀ c ∈ s, isWhitespace c = true

theorem AllBlank.ne_comma {s : JsString} (h : AllBlank s) {c : CodeUnit} (hc : c ∈ s) :
    (c == comma) = false := by
  have := h c hc
  rw [beq_eq_false_iff_ne]
  rintro rfl
  exact absurd this (by decide)

theorem dropWhile_blank {s : JsString} (h : AllBlank s) : s.dropWhile isWhitespace = [] :=
  List.dropWhile_eq_nil_iff.mpr h

theorem trim_blank_append {s t : JsString} (h : AllBlank s) : trim (s ++ t) = trim t := by
  rw [trim, trim, List.dropWhile_append_of_pos h]

theorem trim_append_blank {s t : JsString} (h : AllBlank t) : trim (s ++ t) = trim s := by
  have hrev : AllBlank t.reverse := fun c hc => h c (List.mem_reverse.mp hc)
  rw [trim, trim, List.dropWhile_append]
  split
  · rename_i he
    rw [List.isEmpty_iff.mp he, dropWhile_blank h]
  · rw [List.reverse_append, List.dropWhile_append_of_pos hrev]

/-- A string is its trimmed part between two blank ones. -/
theorem trim_parts (s : JsString) :
    ∃ before after, AllBlank before ∧ AllBlank after ∧ s = before ++ (trim s ++ after) := by
  refine ⟨s.takeWhile isWhitespace,
    ((s.dropWhile isWhitespace).reverse.takeWhile isWhitespace).reverse,
    fun c hc => List.mem_takeWhile_imp hc,
    fun c hc => List.mem_takeWhile_imp (List.mem_reverse.mp hc), ?_⟩
  rw [trim, ← List.reverse_append, List.takeWhile_append_dropWhile, List.reverse_reverse,
    List.takeWhile_append_dropWhile]

/-- Blank text before the first key belongs to it. -/
theorem splitOn_blank_append {s t : JsString} (h : AllBlank s) :
    ∃ first rest, t.splitOn comma = first :: rest ∧
      (s ++ t).splitOn comma = (s ++ first) :: rest := by
  induction s with
  | nil =>
    obtain ⟨first, rest, hsplit⟩ := List.exists_cons_of_ne_nil (List.splitOn_ne_nil comma t)
    exact ⟨first, rest, hsplit, hsplit⟩
  | cons c s ih =>
    obtain ⟨first, rest, ht, hs⟩ := ih fun d hd => h d (List.mem_cons_of_mem c hd)
    refine ⟨first, rest, ht, ?_⟩
    rw [List.cons_append, List.splitOn_cons_eq_if_modifyHead, h.ne_comma List.mem_cons_self, hs]
    rfl

/-- Blank text behind the last key belongs to it. -/
theorem splitOn_append_blank {s t : JsString} (h : AllBlank t) :
    ∃ init last, s.splitOn comma = init ++ [last] ∧
      (s ++ t).splitOn comma = init ++ [last ++ t] := by
  induction s with
  | nil =>
    refine ⟨[], [], rfl, ?_⟩
    exact List.splitOn_eq_singleton_of_beq_eq_false fun c hc => h.ne_comma hc
  | cons c s ih =>
    obtain ⟨init, last, hs, ht⟩ := ih
    rw [List.cons_append, List.splitOn_cons_eq_if_modifyHead, List.splitOn_cons_eq_if_modifyHead,
      hs, ht]
    split
    · exact ⟨[] :: init, last, rfl, rfl⟩
    · cases init with
      | nil => exact ⟨[], c :: last, rfl, rfl⟩
      | cons first init => exact ⟨(c :: first) :: init, last, rfl, rfl⟩

/-- Trimming the setting first does not change its keys. -/
theorem usableKeys_trim (raw : JsString) : usableKeys (trim raw) = usableKeys raw := by
  obtain ⟨before, after, hb, ha, hraw⟩ := trim_parts raw
  obtain ⟨first, rest, hsplit, hfirst⟩ := splitOn_blank_append (t := trim raw ++ after) hb
  obtain ⟨init, last, hinit, hlast⟩ := splitOn_append_blank (s := trim raw) ha
  have hbody : ((trim raw ++ after).splitOn comma).map trim =
      ((trim raw).splitOn comma).map trim := by
    rw [hinit, hlast, List.map_append, List.map_append, List.map_singleton, List.map_singleton,
      trim_append_blank ha]
  have hwhole : (raw.splitOn comma).map trim = ((trim raw ++ after).splitOn comma).map trim := by
    rw [← hraw] at hfirst
    rw [hfirst, hsplit, List.map_cons, List.map_cons, trim_blank_append hb]
  rw [usableKeys, usableKeys, hwhole, hbody]

theorem parseClientKeys_some (raw : JsString) : parseClientKeys (some raw) = usableKeys raw := by
  rw [← usableKeys_trim, parseClientKeys, Option.map_some]
  cases htrim : trim raw with
  | nil => rfl
  | cons c rest => rfl

/-! ## The decision -/

variable {sha256}

theorem matchesClientKey_iff {provided : JsString} {keys : List JsString} :
    matchesClientKey sha256 provided keys = true ↔
      ∃ key ∈ keys, digestClientKey sha256 provided = digestClientKey sha256 key := by
  have hfold : ∀ (keys : List JsString) (count : Nat),
      0 < keys.foldl (fun (count : Nat) key => count + (timingSafeEqual
        (digestClientKey sha256 provided) (digestClientKey sha256 key)).toNat) count ↔
      0 < count ∨ ∃ key ∈ keys, digestClientKey sha256 provided = digestClientKey sha256 key := by
    intro keys
    induction keys with
    | nil => simp
    | cons key keys ih =>
      intro count
      rw [List.foldl_cons, ih, timingSafeEqual]
      by_cases he : digestClientKey sha256 provided = digestClientKey sha256 key
      · simp [he]
      · simp [he, beq_eq_false_iff_ne.mpr he]
  simpa [matchesClientKey] using hfold keys 0

/-- The header is one string with the bytes of a key. -/
def PresentsKey (header : Option HeaderValue) (keys : List JsString) : Prop :=
  ∃ provided, header = some (.str provided) ∧ ∃ key ∈ keys, utf8 provided = utf8 key

/-- A setting lets through exactly the requests that present one of its keys if
and only if it has a key: one without keys lets everybody through. -/
theorem gate_exact {raw : JsString} (header : Option HeaderValue)
    (hsha : ∀ provided, header = some (.str provided) → ∀ key ∈ usableKeys raw,
      sha256 (utf8 provided) = sha256 (utf8 key) → utf8 provided = utf8 key) :
    (clientApiKeyGate sha256 (some raw) header = .ok () ↔ PresentsKey header (usableKeys raw)) ↔
      usableKeys raw ≠ [] := by
  unfold clientApiKeyGate
  simp only [parseClientKeys_some, List.length_eq_zero_iff]
  by_cases hkeys : usableKeys raw = []
  · rw [if_pos hkeys, hkeys]
    refine iff_of_false (fun h => ?_) (· rfl)
    obtain ⟨_, _, key, hkey, _⟩ := h.mp rfl
    cases hkey
  · rw [if_neg hkeys]
    refine iff_of_true ?_ hkeys
    rcases header with _ | provided | values
    · refine iff_of_false nofun ?_
      rintro ⟨_, h, _⟩
      cases h
    · have hmatch : matchesClientKey sha256 provided (usableKeys raw) = true ↔
          PresentsKey (some (.str provided)) (usableKeys raw) := by
        rw [matchesClientKey_iff]
        constructor
        · rintro ⟨key, hkey, he⟩
          exact ⟨provided, rfl, key, hkey, hsha provided rfl key hkey he⟩
        · rintro ⟨_, ⟨⟩, key, hkey, he⟩
          exact ⟨key, hkey, congrArg sha256 he⟩
      rw [← hmatch]
      cases hm : matchesClientKey sha256 provided (usableKeys raw) <;> simp [hm]
    · refine iff_of_false nofun ?_
      rintro ⟨_, h, _⟩
      cases h

/-- The digests of the two keys of the sample setting. -/
def sampleSha256 (bytes : List UInt8) : Digest :=
  if bytes = utf8 (js "retiring-key") then
    #v[186, 229, 187, 4, 99, 219, 73, 131, 174, 162, 255, 202, 40, 157, 57, 5,
    76, 112, 184, 93, 149, 56, 229, 144, 234, 66, 212, 138, 129, 8, 51, 12]
  else if bytes = utf8 (js "current-key") then
    #v[207, 194, 142, 112, 80, 71, 126, 50, 244, 44, 194, 8, 65, 57, 100, 95,
    237, 52, 224, 47, 103, 13, 143, 174, 233, 224, 4, 58, 167, 172, 67, 42]
  else Vector.replicate 32 0

/-- The later key of a rotation set is let through. -/
theorem gate_exact_rotation :
    clientApiKeyGate sampleSha256 (some (js "retiring-key, current-key"))
      (some (.str (js "current-key"))) = .ok () := by
  have hkeys : usableKeys (js "retiring-key, current-key") =
      [js "retiring-key", js "current-key"] := by decide
  refine ((@gate_exact sampleSha256 _ _ ?_).mpr (by simp [hkeys])).mpr
    ⟨js "current-key", rfl, js "current-key", by simp [hkeys], rfl⟩
  rintro _ ⟨⟩ key hkey
  rw [hkeys] at hkey
  simp only [List.mem_cons, List.not_mem_nil, or_false] at hkey
  rcases hkey with rfl | rfl
  · exact fun h => absurd h (by decide)
  · exact fun _ => rfl

/-- A lone comma is not blank, has no key, and lets a request without the
header through. -/
theorem gate_open :
    ¬∀ (sha256 : List UInt8 → Digest) (raw : JsString) (header : Option HeaderValue),
      trim raw ≠ [] →
      (∀ provided, header = some (.str provided) → ∀ key ∈ usableKeys raw,
        sha256 (utf8 provided) = sha256 (utf8 key) → utf8 provided = utf8 key) →
      (clientApiKeyGate sha256 (some raw) header = .ok () ↔
        PresentsKey header (usableKeys raw)) := by
  intro h
  have hnone : ∀ provided, (none : Option HeaderValue) = some (.str provided) →
      ∀ key ∈ usableKeys (js ","), sampleSha256 (utf8 provided) = sampleSha256 (utf8 key) →
        utf8 provided = utf8 key := by
    intro provided hheader
    cases hheader
  obtain ⟨provided, hheader, -⟩ := (h sampleSha256 (js ",") none (by decide) hnone).mp rfl
  cases hheader

end NewsApi.Middleware
