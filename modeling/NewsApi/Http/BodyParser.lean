import NewsApi.Utils.Coercion

/-! # Errors of the body parser

The table that gives each type of parser error its answer, read the way the
runtime reads a member of an object: what the table does not have itself it has
from its prototype. -/
namespace NewsApi.Http
open NewsApi.Text

/-- What its fields read as; `none` is `undefined`. -/
structure BodyParserErrorContract where
  type : Option JsString
  statusCode : Option Nat
  code : Option JsString
  message : Option JsString
deriving DecidableEq

def bodyParserContract (type : String) (statusCode : Nat) (code message : String) :
    JsString × BodyParserErrorContract :=
  (js type, ⟨some (js type), some statusCode, some (js code), some (js message)⟩)

def BODY_PARSER_ERROR_CONTRACTS : List (JsString × BodyParserErrorContract) := [
  bodyParserContract "entity.too.large" 413 "request_body_too_large" "Request body too large",
  bodyParserContract "entity.parse.failed" 400 "invalid_json_body" "Invalid JSON request body",
  bodyParserContract "request.aborted" 400 "request_body_aborted" "Request body was aborted",
  bodyParserContract "request.size.invalid" 400 "invalid_request_size" "Invalid request body size",
  bodyParserContract "encoding.unsupported" 415 "unsupported_content_encoding"
    "Unsupported request content encoding",
  bodyParserContract "charset.unsupported" 415 "unsupported_charset" "Unsupported request charset",
  bodyParserContract "entity.verify.failed" 403 "request_body_rejected" "Request body rejected",
  bodyParserContract "parameters.too.many" 413 "too_many_parameters" "Too many request parameters"]

/-- The members that every object literal inherits. -/
def objectPrototype : List JsString :=
  ["constructor", "__defineGetter__", "__defineSetter__", "hasOwnProperty", "__lookupGetter__",
    "__lookupSetter__", "isPrototypeOf", "propertyIsEnumerable", "toString", "valueOf",
    "__proto__", "toLocaleString"].map js

/-- An inherited member has none of the fields of a contract. -/
def inheritedMember : BodyParserErrorContract := ⟨none, none, none, none⟩

/-- `BODY_PARSER_ERROR_CONTRACTS[type]` -/
def contractMember (type : JsString) : Option BodyParserErrorContract :=
  match BODY_PARSER_ERROR_CONTRACTS.lookup type with
  | some contract => some contract
  | none => if objectPrototype.contains type then some inheritedMember else none

/-! ## The table -/

/-- A contract that can be sent as it is. -/
def BodyParserErrorContract.complete (contract : BodyParserErrorContract) : Bool :=
  contract.statusCode.any (fun status => 400 ≤ status && status < 600) &&
    contract.code.isSome && contract.message.isSome

/-- Every entry is one for the type that it is listed under. -/
theorem contracts_complete : BODY_PARSER_ERROR_CONTRACTS.all
    (fun entry => entry.2.type == some entry.1 && entry.2.complete) = true := by
  decide +kernel

theorem lookup_complete {type : JsString} {contract : BodyParserErrorContract}
    (h : BODY_PARSER_ERROR_CONTRACTS.lookup type = some contract) :
    contract.complete = true := by
  obtain ⟨before, after, hsplit, -⟩ := List.lookup_eq_some_iff.mp h
  have hmem : (type, contract) ∈ BODY_PARSER_ERROR_CONTRACTS := by simp [hsplit]
  have hall := List.all_eq_true.mp contracts_complete _ hmem
  exact (Bool.and_eq_true_iff.mp hall).2

/-- No entry has the name of an inherited member. -/
theorem objectPrototype_lookup {type : JsString} (h : type ∈ objectPrototype) :
    contractMember type = some inheritedMember := by
  have hall : (objectPrototype.all fun type =>
      contractMember type == some inheritedMember) = true := by
    decide +kernel
  exact eq_of_beq (List.all_eq_true.mp hall type h)

/-- A member that is found is an entry, unless the type names an inherited member. -/
theorem contractMember_complete {type : JsString} (h : type ∉ objectPrototype)
    {contract : BodyParserErrorContract} (hfound : contractMember type = some contract) :
    contract.complete = true := by
  unfold contractMember at hfound
  split at hfound
  · rename_i found hlookup
    obtain rfl := Option.some.inj hfound
    exact lookup_complete hlookup
  · rw [if_neg (by simpa using h)] at hfound
    cases hfound

end NewsApi.Http
