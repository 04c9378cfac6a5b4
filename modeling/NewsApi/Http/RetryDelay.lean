import Mathlib.Data.Rat.Floor
import NewsApi.Http.RetryAfter

/-! # The delay that `Retry-After` announces

Digits announce it in seconds, a date by its distance from now. What is
forwarded is that delay, but at least 0 and at most a day. -/
namespace NewsApi.Http
open NewsApi.Text NewsApi.Types NewsApi.Config

/-- The text of a header, or of the first of several. -/
def headerText : Option Json → Option JsString
  | some (.arr items) =>
    match items.head? with
    | some (.str text) => some text
    | _ => none
  | some (.str text) => some text
  | _ => none

/-- `Math.ceil((retryAt - now) / 1000)` -/
def secondsUntil (now retryAt : Int) : Int := ⌈((retryAt - now : Int) : Rat) / 1000⌉

/-- In seconds, of a trimmed text. A number of seconds that is not exact announces nothing. -/
def announcedDelay (platform : Platform) (now : Int) (text : JsString) : Option Int :=
  if isDigits text then
    if digitsValue text ≤ MAX_SAFE_INTEGER then some (digitsValue text) else none
  else if isSignedDigits text then none
  else (platform.dateParse text).map (secondsUntil now)

/-- Between 0 and a day. -/
def cappedDelay (seconds : Int) : Nat := min seconds.toNat MAX_RETRY_AFTER_SECONDS

theorem secondsUntil_eq (now retryAt : Int) :
    secondsUntil now retryAt = (retryAt - now + 999) / 1000 := by
  have hceil := Rat.ceil_intCast_div_natCast (retryAt - now) 1000
  rw [secondsUntil, show (1000 : Rat) = ((1000 : Nat) : Rat) by norm_num, hceil]
  omega

theorem cappedDelay_mono {d e : Int} (h : d ≤ e) : cappedDelay d ≤ cappedDelay e := by
  unfold cappedDelay
  omega

theorem cappedDelay_le (d : Int) : cappedDelay d ≤ MAX_RETRY_AFTER_SECONDS := by
  unfold cappedDelay
  omega

variable {platform : Platform}

/-- The text that is normalized. -/
theorem normalizeRetryAfter_text (value : Option Json) (now : Int) :
    normalizeRetryAfter platform value now =
      (headerText value).bind fun text => normalizeRetryAfter platform (some (.str text)) now := by
  cases value with
  | none => rfl
  | some value =>
    cases value with
    | arr items =>
      cases items with
      | nil => rfl
      | cons item items =>
        cases item with
        | str text => rfl
        | _ => rfl
    | str text => rfl
    | _ => rfl

/-- The result is the announced delay, capped. -/
theorem normalizeRetryAfter_eq (value : Option Json) (now : Int) :
    normalizeRetryAfter platform value now =
      ((headerText value).bind fun text => announcedDelay platform now (trim text)).map
        fun seconds => decimal (cappedDelay seconds) := by
  rw [normalizeRetryAfter_text, Option.map_bind]
  congr 1
  funext text
  unfold normalizeRetryAfter announcedDelay
  dsimp only [Function.comp_def]
  split
  · split
    · simp [cappedDelay]
    · rfl
  · split
    · rfl
    · cases platform.dateParse (trim text) with
      | none => rfl
      | some retryAt => simp [cappedDelay, secondsUntil_eq]

theorem isSignedDigits_of_digits {s : JsString} (h : isDigits s = true) :
    isSignedDigits s = true := by
  cases s with
  | nil => cases h
  | cons c rest =>
    have hdigit : isDigit c = true := by
      simp [isDigits] at h
      exact h.1
    have hsign : (c == 0x2B || c == 0x2D) = false := by
      simp only [isDigit, Bool.and_eq_true, decide_eq_true_eq, UInt16.le_iff_toNat_le] at hdigit
      simp [← UInt16.toNat_inj] at hdigit ⊢
      omega
    rw [isSignedDigits, hsign, if_neg Bool.false_ne_true, h]

/-! ## Capped delays -/

section
variable (platform) (value : Option Json) (now : Int)

/-- What the three kinds of texts come to. -/
structure Normalized (text : JsString) : Prop where
  seconds : isDigits text = true → digitsValue text ≤ MAX_SAFE_INTEGER →
    normalizeRetryAfter platform value now =
      some (decimal (min (digitsValue text) MAX_RETRY_AFTER_SECONDS))
  inexact : isDigits text = true → MAX_SAFE_INTEGER < digitsValue text →
    normalizeRetryAfter platform value now = none
  date : ∀ retryAt, isSignedDigits text = false → platform.dateParse text = some retryAt →
    normalizeRetryAfter platform value now = some (decimal (cappedDelay (secondsUntil now retryAt)))

end

theorem normalized (value : Option Json) (now : Int) {text : JsString}
    (htext : headerText value = some text) : Normalized platform value now (trim text) where
  seconds hdigits hsafe := by
    rw [normalizeRetryAfter_eq, htext]
    simp [announcedDelay, hdigits, hsafe, cappedDelay]
  inexact hdigits hunsafe := by
    rw [normalizeRetryAfter_eq, htext]
    simp [announcedDelay, hdigits, Nat.not_le.mpr hunsafe]
  date retryAt hsigned hparse := by
    have hdigits : isDigits (trim text) = false := by
      rw [Bool.eq_false_iff]
      intro hdigits
      simp [isSignedDigits_of_digits hdigits] at hsigned
    rw [normalizeRetryAfter_eq, htext]
    simp [announcedDelay, hdigits, hsigned, hparse]

/-- **`Retry-After` is capped**: at a day, and it follows the announced delay
from 0 up to there. Only a number of seconds that is not exact is dropped. -/
theorem retryAfter_capped (platform : Platform) (value : Option Json) (now : Int) :
    (∀ result, normalizeRetryAfter platform value now = some result →
      ∃ n ≤ MAX_RETRY_AFTER_SECONDS, result = decimal n) ∧
    (∀ text, headerText value = some text → Normalized platform value now (trim text)) ∧
    ∀ value' now' text text' d d', headerText value = some text → headerText value' = some text' →
      announcedDelay platform now (trim text) = some d →
      announcedDelay platform now' (trim text') = some d' → d ≤ d' →
      ∃ n n', normalizeRetryAfter platform value now = some (decimal n) ∧
        normalizeRetryAfter platform value' now' = some (decimal n') ∧ n ≤ n' := by
  refine ⟨?_, fun text htext => normalized value now htext, ?_⟩
  · intro result hresult
    rw [normalizeRetryAfter_eq, Option.map_eq_some_iff] at hresult
    obtain ⟨d, -, rfl⟩ := hresult
    exact ⟨cappedDelay d, cappedDelay_le d, rfl⟩
  · intro value' now' text text' d d' htext htext' hdelay hdelay' hle
    refine ⟨cappedDelay d, cappedDelay d', ?_, ?_, cappedDelay_mono hle⟩
    · rw [normalizeRetryAfter_eq, htext, Option.bind_some, hdelay, Option.map_some]
    · rw [normalizeRetryAfter_eq, htext', Option.bind_some, hdelay', Option.map_some]

/-- From `2 ^ 53` on, a number of seconds is dropped. -/
theorem retryAfter_inexact : ¬∀ (platform : Platform) (value : Option Json) (now : Int)
    (text : JsString), headerText value = some text → isDigits (trim text) = true →
    normalizeRetryAfter platform value now =
      some (decimal (min (digitsValue (trim text)) MAX_RETRY_AFTER_SECONDS)) := by
  intro hall
  have hcapped := hall .plain (some (.str (js "9007199254740992"))) 0 _ rfl (by decide)
  have hdropped := (@normalized .plain (some (.str (js "9007199254740992"))) 0 _ rfl).inexact
    (by decide) (by decide +kernel)
  rw [hdropped] at hcapped
  cases hcapped

end NewsApi.Http
