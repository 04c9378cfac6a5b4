import NewsApi.Http.Stringify
import NewsApi.Utils.NumberText

/-! # Texts that are read back

What `JSON.stringify` writes, `JSON.parse` reads, up to what is not data: an
undefined member is left out and an undefined item is `null`. -/
namespace NewsApi.Http
open NewsApi.Text NewsApi.Utils NewsApi.JsonText

mutual

/-- The data of a value; `none` for `undefined`. -/
def dataOf : JsonValue → Option JsonData
  | .undefined => none
  | .null => some .null
  | .bool b => some (.bool b)
  | .num n => some (.num (.finite n))
  | .str s => some (.str s)
  | .arr items => some (.arr (dataOfItems items))
  | .obj members => some (.obj (dataOfMembers members))

def dataOfItems : List JsonValue → List JsonData
  | [] => []
  | item :: items => (dataOf item).getD .null :: dataOfItems items

def dataOfMembers : List (JsString × JsonValue) → List (JsString × JsonData)
  | [] => []
  | (name, value) :: members =>
    match dataOf value with
    | some data => (name, data) :: dataOfMembers members
    | none => dataOfMembers members

end

mutual

/-- The numbers in a value. -/
def numbersOf : JsonValue → List Rat
  | .num n => [n]
  | .arr items => numbersOfItems items
  | .obj members => numbersOfMembers members
  | _ => []

def numbersOfItems : List JsonValue → List Rat
  | [] => []
  | item :: items => numbersOf item ++ numbersOfItems items

def numbersOfMembers : List (JsString × JsonValue) → List Rat
  | [] => []
  | (_, value) :: members => numbersOf value ++ numbersOfMembers members

end

/-! ## Scanning what was written -/

/-- The text is over, or a word is. -/
def EndsWord (rest : JsString) : Prop := ∀ c, rest.head? = some c → isWordEnd c = true

/-- The scanner makes these tokens of the text. -/
def Emits (text : JsString) (tokens : List Token) : Prop :=
  ∀ rest, EndsWord rest → scanAll .between (text ++ rest) = (scanAll .between rest).map (tokens ++ ·)

theorem EndsWord.cons {c : CodeUnit} (h : isWordEnd c = true) (rest : JsString) :
    EndsWord (c :: rest) := by
  intro d hd
  cases hd
  exact h

theorem scanAll_step {mode next : Mode} {c : CodeUnit} {tokens : List Token}
    (h : scan mode c = some (next, tokens)) (rest : JsString) :
    scanAll mode (c :: rest) = (scanAll next rest).map (tokens ++ ·) := by
  rw [scanAll, h]
  rfl

theorem scanAll_silent {mode next : Mode} {c : CodeUnit} (h : scan mode c = some (next, []))
    (rest : JsString) : scanAll mode (c :: rest) = scanAll next rest := by
  rw [scanAll_step h]
  exact Option.map_id'

theorem map_append (tokens tokens' : List Token) (scanned : Option (List Token)) :
    (scanned.map (tokens' ++ ·)).map (tokens ++ ·) = scanned.map (tokens ++ tokens' ++ ·) := by
  rw [Option.map_map]
  congr 1
  funext rest
  exact (List.append_assoc _ _ _).symm

theorem punctuation_plain {c : CodeUnit} {token : Token} (h : punctuation c = some token) :
    isJsonSpace c = false ∧ c ≠ 0x22 := by
  unfold punctuation at h
  split_ifs at h with h1 h2 h3 h4 h5 h6
  · subst h1; decide
  · subst h2; decide
  · subst h3; decide
  · subst h4; decide
  · subst h5; decide
  · subst h6; decide

theorem emits_nil : Emits [] [] := by
  intro rest _
  exact Option.map_id'.symm

/-- Punctuation is one token, whatever follows. -/
theorem Emits.punctuated {c : CodeUnit} {token : Token} {text : JsString} {tokens : List Token}
    (hc : punctuation c = some token) (h : Emits text tokens) :
    Emits (c :: text) (token :: tokens) := by
  intro rest hrest
  obtain ⟨hspace, hquote⟩ := punctuation_plain hc
  have hscan : scan .between c = some (.between, [token]) := by
    rw [scan, scanBetween, if_neg (by simp [hspace]), if_neg hquote, hc]
  rw [List.cons_append, scanAll_step hscan, h rest hrest, map_append]
  rfl

/-- Punctuation ends the text before it. -/
theorem Emits.followed {c : CodeUnit} {token : Token} {text text' : JsString}
    {tokens tokens' : List Token} (h : Emits text tokens) (hc : punctuation c = some token)
    (h' : Emits text' tokens') : Emits (text ++ c :: text') (tokens ++ token :: tokens') := by
  intro rest hrest
  have hend : isWordEnd c = true := by simp [isWordEnd, hc]
  rw [List.append_assoc, List.cons_append, h _ (EndsWord.cons hend _), ← List.cons_append,
    h'.punctuated hc rest hrest, map_append]

/-! ### Words -/

theorem scanAll_word {word : JsString} (h : ∀ c ∈ word, isWordEnd c = false) (chars rest : JsString) :
    scanAll (.word chars) (word ++ rest) = scanAll (.word (chars ++ word)) rest := by
  induction word generalizing chars with
  | nil => rw [List.nil_append, List.append_nil]
  | cons c word ih =>
    have hscan : scan (.word chars) c = some (.word (chars ++ [c]), []) := by
      rw [scan, if_neg (by simp [h c List.mem_cons_self])]
    rw [List.cons_append, scanAll_silent hscan, ih fun d hd => h d (List.mem_cons_of_mem c hd),
      List.append_assoc]
    rfl

/-- The end of a word is seen at what follows it. -/
theorem scanAll_wordEnd {word : JsString} {token : Token} (htoken : wordToken word = some token)
    {rest : JsString} (hrest : EndsWord rest) :
    scanAll (.word word) rest = (scanAll .between rest).map ([token] ++ ·) := by
  cases rest with
  | nil => simp [scanAll, scanEnd, htoken]
  | cons c rest =>
    have hend := hrest c rfl
    have hword : scan (.word word) c = some ((scanBetween c).1, token :: (scanBetween c).2) := by
      rw [scan, if_pos hend, htoken]
      rfl
    have hbetween : scan .between c = some ((scanBetween c).1, (scanBetween c).2) := rfl
    rw [scanAll_step hword, scanAll_step hbetween, map_append]
    rfl

theorem emits_word {c : CodeUnit} {word : JsString} {token : Token}
    (hword : (c :: word).any isWordEnd = false) (htoken : wordToken (c :: word) = some token) :
    Emits (c :: word) [token] := by
  intro rest hrest
  have h : ∀ d ∈ c :: word, isWordEnd d = false := by simpa using hword
  have hc := h c List.mem_cons_self
  simp only [isWordEnd, Bool.or_eq_false_iff, beq_eq_false_iff_ne, Option.isSome_eq_false_iff,
    Option.isNone_iff_eq_none] at hc
  have hscan : scan .between c = some (.word [c], []) := by
    rw [scan, scanBetween, if_neg (by simp [hc.1.1]), if_neg hc.1.2, hc.2]
  rw [List.cons_append, scanAll_silent hscan,
    scanAll_word fun d hd => h d (List.mem_cons_of_mem c hd)]
  exact scanAll_wordEnd htoken hrest

/-! ### Strings -/

theorem scanAll_plain {c : CodeUnit} (hquote : c ≠ 0x22) (hbackslash : c ≠ 0x5C)
    (hcontrol : ¬c < 0x20) (chars rest : JsString) :
    scanAll (.text chars) (c :: rest) = scanAll (.text (chars ++ [c])) rest := by
  refine scanAll_silent ?_ rest
  rw [scan, if_neg hquote, if_neg hbackslash, if_neg hcontrol]

/-- A backslash and a letter. -/
theorem scanAll_escape {letter c : CodeUnit} (h : letter ≠ 0x75)
    (hunit : escapedUnit letter = some c) (chars rest : JsString) :
    scanAll (.text chars) (0x5C :: letter :: rest) = scanAll (.text (chars ++ [c])) rest := by
  have hbackslash : scan (.text chars) 0x5C = some (.escape chars, []) := rfl
  have hletter : scan (.escape chars) letter = some (.text (chars ++ [c]), []) := by
    rw [scan, if_neg h, hunit]
    rfl
  rw [scanAll_silent hbackslash, scanAll_silent hletter]

theorem digitValue_hexDigit : ∀ n, n < 16 → digitValue (hexDigit n) = n := by decide

theorem scanAll_hexDigit {n : Nat} (hn : n < 16) {digits : List Nat} (hlength : digits.length < 3)
    (chars rest : JsString) :
    scanAll (.unicode chars digits) (hexDigit n :: rest) =
      scanAll (.unicode chars (digits ++ [n])) rest := by
  have hscan : scan (.unicode chars digits) (hexDigit n) =
      some (.unicode chars (digits ++ [n]), []) := by
    rw [scan, digitValue_hexDigit n hn, if_pos hn]
    simp only [List.length_append, List.length_singleton]
    rw [if_neg (by omega)]
  exact scanAll_silent hscan rest

theorem scanAll_unicode (c : CodeUnit) (chars rest : JsString) :
    scanAll (.text chars) (unicodeEscape c ++ rest) = scanAll (.text (chars ++ [c])) rest := by
  have hlt := c.toNat_lt
  have hbackslash : scan (.text chars) 0x5C = some (.escape chars, []) := rfl
  have hletter : scan (.escape chars) 0x75 = some (.unicode chars [], []) := rfl
  have hlast : ∀ {a b d e : Nat}, e < 16 → ((a * 16 + b) * 16 + d) * 16 + e = c.toNat →
      scan (.unicode chars [a, b, d]) (hexDigit e) = some (.text (chars ++ [c]), []) := by
    intro a b d e he hvalue
    rw [scan, digitValue_hexDigit e he, if_pos he]
    simp [hvalue]
  simp only [unicodeEscape, List.cons_append, List.nil_append]
  rw [scanAll_silent hbackslash, scanAll_silent hletter, scanAll_hexDigit (by omega) (by simp),
    scanAll_hexDigit (by omega) (by simp), scanAll_hexDigit (by omega) (by simp)]
  exact scanAll_silent (hlast (by omega) (by omega)) rest

theorem scanAll_escapeUnit (c : CodeUnit) (chars rest : JsString) :
    scanAll (.text chars) (escapeUnit c ++ rest) = scanAll (.text (chars ++ [c])) rest := by
  unfold escapeUnit
  split_ifs with h1 h2 h3 h4 h5 h6 h7 h8
  · subst h1; exact scanAll_escape (by decide) (by decide) chars rest
  · subst h2; exact scanAll_escape (by decide) (by decide) chars rest
  · subst h3; exact scanAll_escape (by decide) (by decide) chars rest
  · subst h4; exact scanAll_escape (by decide) (by decide) chars rest
  · subst h5; exact scanAll_escape (by decide) (by decide) chars rest
  · subst h6; exact scanAll_escape (by decide) (by decide) chars rest
  · subst h7; exact scanAll_escape (by decide) (by decide) chars rest
  · exact scanAll_unicode c chars rest
  · simp only [Bool.or_eq_true, not_or, decide_eq_true_eq] at h8
    exact scanAll_plain h6 h7 h8.1.1 chars rest

theorem surrogate_notControl {c : CodeUnit}
    (h : isLeadingSurrogate c = true ∨ isTrailingSurrogate c = true) : ¬c < 0x20 := by
  rw [UInt16.lt_iff_toNat_lt, show (0x20 : CodeUnit).toNat = 0x20 from rfl]
  rcases h with h | h
  · have := leading_bounds h
    omega
  · have := trailing_bounds h
    omega

theorem scanAll_escaped (s chars rest : JsString) :
    scanAll (.text chars) (escape s ++ rest) = scanAll (.text (chars ++ s)) rest := by
  induction s using escape.induct generalizing chars with
  | case1 => rw [escape, List.nil_append, List.append_nil]
  | case2 c => exact scanAll_escapeUnit c chars rest
  | case3 c d s hp ih =>
    obtain ⟨hc, hd⟩ := Bool.and_eq_true_iff.mp hp
    obtain ⟨hc1, hc2⟩ := surrogate_plain (Or.inl hc)
    obtain ⟨hd1, hd2⟩ := surrogate_plain (Or.inr hd)
    rw [escape, if_pos hp, List.cons_append, List.cons_append,
      scanAll_plain hc1 hc2 (surrogate_notControl (.inl hc)),
      scanAll_plain hd1 hd2 (surrogate_notControl (.inr hd)), ih, List.append_assoc,
      List.append_assoc]
    rfl
  | case4 c d s hp ih =>
    rw [escape, if_neg hp, List.append_assoc, scanAll_escapeUnit, ih, List.append_assoc]
    rfl

theorem emits_quote (s : JsString) : Emits (quote s) [.str s] := by
  intro rest _
  have hopen : scan .between 0x22 = some (.text [], []) := by decide
  have hclose : scan (.text s) 0x22 = some (.between, [.str s]) := rfl
  rw [quote, List.cons_append, scanAll_silent hopen, List.append_assoc, scanAll_escaped,
    List.nil_append, List.cons_append, List.nil_append, scanAll_step hclose]

/-! ### Values -/

theorem emits_number {q : Rat} (h : IsDouble q) : Emits (numberText q) [.num (.finite q)] := by
  obtain ⟨hnumber, hreads, hunits⟩ := numberText_spec h
  obtain ⟨c, word, hcons⟩ : ∃ c word, numberText q = c :: word := by
    refine List.exists_cons_of_ne_nil fun hnil => ?_
    rw [hnil] at hnumber
    revert hnumber
    decide
  rw [hcons] at hnumber hreads hunits ⊢
  have hname : ∀ {name : JsString}, (∃ d ∈ name, isNumberUnit d = false) → c :: word ≠ name := by
    rintro name ⟨d, hd, hother⟩ rfl
    rw [hunits d hd] at hother
    cases hother
  have hword : (c :: word).any isWordEnd = false :=
    List.any_eq_false.mpr fun d hd => Bool.eq_false_iff.mp (isNumberUnit_plain (hunits d hd)).2
  refine emits_word hword ?_
  rw [wordToken, if_neg (hname ⟨0x6E, by decide, by decide⟩),
    if_neg (hname ⟨0x74, by decide, by decide⟩), if_neg (hname ⟨0x61, by decide, by decide⟩),
    if_pos hnumber, hreads]

theorem emits_arrayText {texts : List JsString} {items : List JsonData}
    (h : List.Forall₂ (fun text item => Emits text (tokensOf item)) texts items) :
    Emits (arrayText texts) (itemTokens items) := by
  induction h with
  | nil => exact emits_nil.punctuated rfl
  | @cons text item texts items hitem hitems ih =>
    cases hitems with
    | nil => exact hitem.followed rfl emits_nil
    | cons _ _ => exact hitem.followed rfl ih

theorem emits_jsonMembers {texts : List (JsString × JsString)}
    {members : List (JsString × JsonData)}
    (h : List.Forall₂ (fun text member => text.1 = member.1 ∧ Emits text.2 (tokensOf member.2))
      texts members) :
    Emits (jsonMembers texts) (memberTokens members) := by
  induction h with
  | nil => exact emits_nil.punctuated rfl
  | @cons text member texts members hmember hmembers ih =>
    obtain ⟨name, text⟩ := text
    obtain ⟨_, data⟩ := member
    obtain ⟨rfl, htext⟩ := hmember
    cases hmembers with
    | nil => exact (emits_quote name).followed rfl (htext.followed rfl emits_nil)
    | cons _ _ => exact (emits_quote name).followed rfl (htext.followed rfl ih)

/-- A value is written exactly if it is data, and its tokens are those of the data. -/
def Written (text : Option JsString) (data : Option JsonData) : Prop :=
  Option.Rel (fun text data => Emits text (tokensOf data)) text data

mutual

theorem stringify_written : ∀ value, (∀ n ∈ numbersOf value, IsDouble n) →
    Written (stringify value) (dataOf value)
  | .undefined, _ => .none
  | .null, _ => .some (emits_word rfl rfl)
  | .bool true, _ => .some (emits_word rfl rfl)
  | .bool false, _ => .some (emits_word rfl rfl)
  | .num _, h => .some (emits_number (h _ List.mem_cons_self))
  | .str s, _ => .some (emits_quote s)
  | .arr items, h => .some ((emits_arrayText (stringifyItems_written items h)).punctuated rfl)
  | .obj members, h =>
    .some ((emits_jsonMembers (stringifyMembers_written members h)).punctuated rfl)

theorem stringifyItems_written : ∀ items, (∀ n ∈ numbersOfItems items, IsDouble n) →
    List.Forall₂ (fun text item => Emits text (tokensOf item)) (stringifyItems items)
      (dataOfItems items)
  | [], _ => .nil
  | item :: items, h => by
    obtain ⟨hitem, hitems⟩ := List.forall_mem_append.mp h
    refine .cons ?_ (stringifyItems_written items hitems)
    have hwritten := stringify_written item hitem
    revert hwritten
    generalize stringify item = text
    generalize dataOf item = data
    rintro (hemits | _)
    · exact hemits
    · exact emits_word rfl rfl

theorem stringifyMembers_written : ∀ members, (∀ n ∈ numbersOfMembers members, IsDouble n) →
    List.Forall₂ (fun text member => text.1 = member.1 ∧ Emits text.2 (tokensOf member.2))
      (stringifyMembers members) (dataOfMembers members)
  | [], _ => .nil
  | (name, value) :: members, h => by
    obtain ⟨hvalue, hmembers⟩ := List.forall_mem_append.mp h
    have hwritten := stringify_written value hvalue
    rw [stringifyMembers, dataOfMembers]
    revert hwritten
    generalize stringify value = text
    generalize dataOf value = data
    rintro (hemits | _)
    · exact .cons ⟨rfl, hemits⟩ (stringifyMembers_written members hmembers)
    · exact stringifyMembers_written members hmembers

end

/-- **What is written is read back.** -/
theorem parseJson_stringify {value : JsonValue} (h : ∀ n ∈ numbersOf value, IsDouble n) :
    (stringify value).bind parseJson = dataOf value := by
  have hwritten := stringify_written value h
  revert hwritten
  generalize stringify value = text
  generalize dataOf value = data
  rintro (hemits | _)
  · rename_i text data
    have htokens := hemits [] nofun
    rw [List.append_nil] at htokens
    refine parseJson_iff.mpr ?_
    rw [Denotes, tokenize, htokens]
    simp [scanAll, scanEnd]
  · rfl

end NewsApi.Http
