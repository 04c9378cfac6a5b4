import NewsApi.Http.Responses
import NewsApi.Utils.BadQuery

/-! # Request ids

A request keeps the id that it came with if that id is fit for a log. -/
namespace NewsApi.Http
open NewsApi.Text NewsApi.Utils

def isHexDigit (c : CodeUnit) : Bool := isDigit c || (0x61 ≤ c && c ≤ 0x66)

/-- `randomUUID()` -/
structure Uuid where
  first : CodeUnit
  rest : JsString
  length : rest.length = 35
  first_hex : isHexDigit first = true
  rest_hex : ∀ c ∈ rest, isHexDigit c = true ∨ c = 0x2D

def Uuid.text (uuid : Uuid) : JsString := uuid.first :: uuid.rest

/-- What the logger makes of the header `x-request-id`. -/
def genReqId (xRequestId : Option HeaderValue) (uuid : Uuid) : JsString :=
  (normalizeRequestId xRequestId).getD uuid.text

/-! ## Ids are kept -/

/-- An id that is kept as it is. -/
structure IsNormalId (id : JsString) : Prop where
  trimmed : trim id = id
  length : id.length ≤ MAX_REQUEST_ID_LENGTH
  valid : isRequestId id = true

theorem normalizeRequestId_eq_some {value : Option HeaderValue} {id : JsString}
    (h : normalizeRequestId value = some id) : IsNormalId id := by
  unfold normalizeRequestId at h
  split at h
  · rename_i text
    dsimp only at h
    split at h
    · cases h
    · rename_i hvalid
      cases h
      simp only [Bool.or_eq_true, decide_eq_true_eq, Bool.not_eq_true', not_or, not_lt,
        Bool.not_eq_false] at hvalid
      exact ⟨trim_trim text, hvalid.1, hvalid.2⟩
  · cases h

theorem IsNormalId.normalize {id : JsString} (h : IsNormalId id) :
    normalizeRequestId (some (.str id)) = some id := by
  have hvalid : ¬(decide (MAX_REQUEST_ID_LENGTH < id.length) || !isRequestId id) = true := by
    simp [h.valid, h.length]
  simp only [normalizeRequestId, h.trimmed, if_neg hvalid]

theorem isHexDigit_alphanumeric {c : CodeUnit} (h : isHexDigit c = true) :
    isAlphanumeric c = true := by
  simp only [isHexDigit, isAlphanumeric, isDigit, Bool.or_eq_true, Bool.and_eq_true,
    decide_eq_true_eq, UInt16.le_iff_toNat_le] at h ⊢
  simp only [UInt16.reduceToNat] at h ⊢
  omega

theorem isAlphanumeric_visible {c : CodeUnit} (h : isAlphanumeric c = true) :
    isWhitespace c = false := by
  simp only [isAlphanumeric, isDigit, isWhitespace, Bool.or_eq_true, Bool.and_eq_true,
    decide_eq_true_eq, Bool.or_eq_false_iff, Bool.and_eq_false_iff, decide_eq_false_iff_not,
    beq_eq_false_iff_ne, UInt16.le_iff_toNat_le, ne_eq, ← UInt16.toNat_inj] at h ⊢
  simp only [UInt16.reduceToNat] at h ⊢
  omega

/-- A string without white space at its ends is its own trimmed form. -/
theorem trim_visible {s : JsString} (h : ∀ c ∈ s, isWhitespace c = false) : trim s = s := by
  have hkeep : ∀ t : JsString, (∀ c ∈ t, isWhitespace c = false) → t.dropWhile isWhitespace = t := by
    intro t ht
    cases t with
    | nil => rfl
    | cons c t => rw [List.dropWhile_cons_of_neg (by simp [ht c List.mem_cons_self])]
  rw [trim, hkeep s h, hkeep s.reverse fun c hc => h c (List.mem_reverse.mp hc),
    List.reverse_reverse]

theorem Uuid.normal (uuid : Uuid) : IsNormalId uuid.text := by
  have hfirst := isHexDigit_alphanumeric uuid.first_hex
  have hrest : ∀ c ∈ uuid.rest, isAlphanumeric c = true ∨ c = 0x2D :=
    fun c hc => (uuid.rest_hex c hc).imp_left isHexDigit_alphanumeric
  have hlength := uuid.length
  refine ⟨trim_visible (List.forall_mem_cons.mpr ⟨isAlphanumeric_visible hfirst, ?_⟩), ?_, ?_⟩
  · intro c hc
    rcases hrest c hc with hc | rfl
    · exact isAlphanumeric_visible hc
    · decide
  · simp only [Uuid.text, List.length_cons, MAX_REQUEST_ID_LENGTH]
    omega
  · rw [Uuid.text, isRequestId, hfirst, Bool.true_and, List.all_eq_true]
    intro c hc
    rcases hrest c hc with hc | rfl
    · rw [hc, Bool.true_or]
    · decide

theorem genReqId_normal (xRequestId : Option HeaderValue) (uuid : Uuid) :
    IsNormalId (genReqId xRequestId uuid) := by
  unfold genReqId
  cases h : normalizeRequestId xRequestId with
  | none => exact uuid.normal
  | some id => exact normalizeRequestId_eq_some h

/-- Bodies carry the id of the response header. -/
theorem requestId_of_normal {id : JsString} (h : IsNormalId id)
    (xRequestId ifNoneMatch : Option HeaderValue) :
    requestId ⟨some id, xRequestId, ifNoneMatch⟩ = id := by
  rw [requestId, Option.map_some, h.normalize]
  rfl

end NewsApi.Http
