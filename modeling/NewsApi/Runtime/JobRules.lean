import NewsApi.Async.Gives
import NewsApi.Providers.Retry

/-! # Rules for jobs that are answered well -/
namespace NewsApi.Runtime
open NewsApi.Async NewsApi.Config NewsApi.Errors NewsApi.Providers

variable {G : (c : Command) → Reply c → Prop} {A : Command → Prop}
  {α : Type} {Q : Except JsError α → Prop} {signal : Signal}

/-- A command before the rest of a block. -/
theorem gives_ask {c : Command} {f : Reply c → Job α} (hc : A c)
    (hf : ∀ r, G c r → AsyncM.Gives G A (f r) Q) : AsyncM.Gives G A (ask c >>= f) Q :=
  .bind (.lift (.command hc hf))

theorem gives_throwIfAborted {f : Unit → Job α} (ha : A (.aborted signal))
    (hf : AsyncM.Gives G A (f ()) Q) (hthrow : Q (.error .requestAborted)) :
    AsyncM.Gives G A (throwIfAborted signal >>= f) Q := by
  refine .bind (gives_ask ha fun aborted _ => ?_)
  cases aborted
  · exact .pure hf
  · exact .throw hthrow

theorem gives_withSpan {operation : Job α} (ht : A .tick) (h : AsyncM.Gives G A operation Q) :
    AsyncM.Gives G A (withSpan operation) Q :=
  .bind (.attempt (h.mono fun _ hr => gives_ask ht fun _ _ => .ofExcept hr))

/-! ## Retries -/

/-- An attempt of a retried operation goes on, or ends as the operation may. -/
def AttemptPost (Q : Except JsError α → Prop) : Except JsError (Nat ⊕ α) → Prop
  | .ok (.inl _) => True
  | .ok (.inr value) => Q (.ok value)
  | .error err => Q (.error err)

section
variable {settings : Settings} (ha : A (.aborted signal)) (hr : A .random)
  (hs : ∀ delayMs, A (.sleep delayMs signal)) (ht : A .tick)
  (habort : Q (.error .requestAborted))
  (hsleep : ∀ delayMs err, G (.sleep delayMs signal) (.error err) → Q (.error err))
include ha hr hs ht habort hsleep

theorem gives_afterFailedAttempt {attempt : Nat} {error : JsError} (herror : Q (.error error)) :
    AsyncM.Gives G A (afterFailedAttempt settings signal attempt error) (AttemptPost Q) := by
  refine gives_ask ha fun aborted _ => ?_
  split
  · exact .throw habort
  · split
    · exact .throw herror
    · refine gives_ask hr fun random _ => .bind (gives_withSpan ht ?_)
      refine gives_throwIfAborted ha ?_ habort
      refine Prog.Gives.command (hs _) fun r hslept => ?_
      cases r with
      | ok value => exact .pure trivial
      | error err => exact hsleep _ err hslept

/-- A retried operation ends as the operation may, or aborted. -/
theorem gives_withUpstreamRetries {operation : Job α} (hx : AsyncM.Gives G A operation Q) :
    AsyncM.Gives G A (withUpstreamRetries settings operation signal) Q := by
  refine .loop (fun _ => True) trivial fun attempt _ => ?_
  refine (AsyncM.Gives.tryCatch (Q := AttemptPost Q) ?_).mono fun
    | .ok (.inl _) => fun _ => trivial
    | .ok (.inr _) => fun h => h
    | .error _ => fun h => h
  refine gives_throwIfAborted ha ?_ (gives_afterFailedAttempt ha hr hs ht habort hsleep habort)
  exact .bind (hx.mono fun
    | .ok value => fun hvalue => .pure hvalue
    | .error error => fun herror => gives_afterFailedAttempt ha hr hs ht habort hsleep herror)

end

end NewsApi.Runtime
