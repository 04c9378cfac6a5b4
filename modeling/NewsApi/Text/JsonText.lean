import NewsApi.Utils.Coercion

/-! # `JSON.parse`

A scanner that goes through the text one code unit at a time, and a parser of
the tokens. -/
namespace NewsApi.JsonText
open Text Types Utils Http

/-- A parsed value. Where an object has a name twice, the last one counts. -/
inductive JsonData where
  | null
  | bool (b : Bool)
  | num (n : JsNumber)
  | str (s : JsString)
  | arr (items : List JsonData)
  | obj (members : List (JsString × JsonData))

inductive Token where
  | openArray
  | closeArray
  | openObject
  | closeObject
  | comma
  | colon
  | null
  | bool (b : Bool)
  | num (n : JsNumber)
  | str (s : JsString)
deriving DecidableEq

/-! ## The scanner -/

def isJsonSpace (c : CodeUnit) : Bool := c == 0x20 || c == 0x09 || c == 0x0A || c == 0x0D

def punctuation (c : CodeUnit) : Option Token :=
  if c = 0x5B then some .openArray
  else if c = 0x5D then some .closeArray
  else if c = 0x7B then some .openObject
  else if c = 0x7D then some .closeObject
  else if c = 0x2C then some .comma
  else if c = 0x3A then some .colon
  else none

/-- What follows the integer digits of a number. -/
def isFractionAndExponent : JsString → Bool
  | 0x2E :: rest =>
    !(rest.takeWhile isDigit).isEmpty && (exponentOf (rest.dropWhile isDigit)).isSome
  | rest => (exponentOf rest).isSome

def isUnsigned (s : JsString) : Bool :=
  let whole := s.takeWhile isDigit
  (whole == [0x30] || !whole.isEmpty && whole.head? != some 0x30) &&
    isFractionAndExponent (s.dropWhile isDigit)

def isJsonNumber : JsString → Bool
  | 0x2D :: rest => isUnsigned rest
  | s => isUnsigned s

/-- A literal name or a number. -/
def wordToken (word : JsString) : Option Token :=
  if word = js "null" then some .null
  else if word = js "true" then some (.bool true)
  else if word = js "false" then some (.bool false)
  else if isJsonNumber word then some (.num (numberOfString word))
  else none

/-- Where the scanner is: between tokens, in a word, in a string, after a
backslash or among the digits after `\u`. -/
inductive Mode where
  | between
  | word (chars : JsString)
  | text (chars : JsString)
  | escape (chars : JsString)
  | unicode (chars : JsString) (digits : List Nat)
deriving DecidableEq

def isWordEnd (c : CodeUnit) : Bool := isJsonSpace c || c == 0x22 || (punctuation c).isSome

def scanBetween (c : CodeUnit) : Mode × List Token :=
  if isJsonSpace c then (.between, [])
  else if c = 0x22 then (.text [], [])
  else match punctuation c with
    | some token => (.between, [token])
    | none => (.word [c], [])

def escapedUnit (c : CodeUnit) : Option CodeUnit :=
  if c = 0x22 ∨ c = 0x5C ∨ c = 0x2F then some c
  else if (js "bfnrt").contains c then some (unescapeUnit c)
  else none

/-- One code unit: where it leads, and the tokens that it ends. -/
def scan : Mode → CodeUnit → Option (Mode × List Token)
  | .between, c => some (scanBetween c)
  | .word chars, c =>
    if isWordEnd c then (wordToken chars).map fun token =>
      let (mode, tokens) := scanBetween c
      (mode, token :: tokens)
    else some (.word (chars ++ [c]), [])
  | .text chars, c =>
    if c = 0x22 then some (.between, [.str chars])
    else if c = 0x5C then some (.escape chars, [])
    else if c < 0x20 then none
    else some (.text (chars ++ [c]), [])
  | .escape chars, c =>
    if c = 0x75 then some (.unicode chars [], [])
    else (escapedUnit c).map fun d => (.text (chars ++ [d]), [])
  | .unicode chars digits, c =>
    if digitValue c < 16 then
      let digits := digits ++ [digitValue c]
      if digits.length = 4 then
        some (.text (chars ++ [UInt16.ofNat (digits.foldl (fun n d => n * 16 + d) 0)]), [])
      else some (.unicode chars digits, [])
    else none

/-- The end of the text. -/
def scanEnd : Mode → Option (List Token)
  | .between => some []
  | .word chars => (wordToken chars).map fun token => [token]
  | _ => none

def scanAll (mode : Mode) : JsString → Option (List Token)
  | [] => scanEnd mode
  | c :: rest => (scan mode c).bind fun (mode, tokens) => (scanAll mode rest).map (tokens ++ ·)

def tokenize (text : JsString) : Option (List Token) := scanAll .between text

example : tokenize (js " [-1e2,\"\\u0041\"] ") =
    some [.openArray, .num (.finite (-100)), .comma, .str (js "A"), .closeArray] := by
  decide +kernel

/-! ## The parser -/

mutual

/-- A value and the tokens behind it. `fuel` bounds the depth of the calls. -/
def readValue : Nat → List Token → Option (JsonData × List Token)
  | 0, _ => none
  | _ + 1, .null :: rest => some (.null, rest)
  | _ + 1, .bool b :: rest => some (.bool b, rest)
  | _ + 1, .num n :: rest => some (.num n, rest)
  | _ + 1, .str s :: rest => some (.str s, rest)
  | _ + 1, .openArray :: .closeArray :: rest => some (.arr [], rest)
  | fuel + 1, .openArray :: rest =>
    (readItems fuel rest).map fun (items, rest) => (.arr items, rest)
  | _ + 1, .openObject :: .closeObject :: rest => some (.obj [], rest)
  | fuel + 1, .openObject :: rest =>
    (readMembers fuel rest).map fun (members, rest) => (.obj members, rest)
  | _ + 1, _ => none

/-- The items up to the bracket. -/
def readItems : Nat → List Token → Option (List JsonData × List Token)
  | 0, _ => none
  | fuel + 1, tokens =>
    match readValue fuel tokens with
    | some (item, .comma :: rest) =>
      (readItems fuel rest).map fun (items, rest) => (item :: items, rest)
    | some (item, .closeArray :: rest) => some ([item], rest)
    | _ => none

def readMembers : Nat → List Token → Option (List (JsString × JsonData) × List Token)
  | 0, _ => none
  | fuel + 1, .str name :: .colon :: tokens =>
    match readValue fuel tokens with
    | some (value, .comma :: rest) =>
      (readMembers fuel rest).map fun (members, rest) => ((name, value) :: members, rest)
    | some (value, .closeObject :: rest) => some ([(name, value)], rest)
    | _ => none
  | _ + 1, _ => none

end

/-- The tokens of exactly one value. -/
def parseTokens (tokens : List Token) : Option JsonData :=
  match readValue (tokens.length + 1) tokens with
  | some (value, []) => some value
  | _ => none

/-- `none`: a `SyntaxError` -/
def parseJson (text : JsString) : Option JsonData := (tokenize text).bind parseTokens

/-! ## What it accepts -/

mutual

def tokensOf : JsonData → List Token
  | .null => [.null]
  | .bool b => [.bool b]
  | .num n => [.num n]
  | .str s => [.str s]
  | .arr items => .openArray :: itemTokens items
  | .obj members => .openObject :: memberTokens members

def itemTokens : List JsonData → List Token
  | [] => [.closeArray]
  | [item] => tokensOf item ++ [.closeArray]
  | item :: next :: items => tokensOf item ++ .comma :: itemTokens (next :: items)

def memberTokens : List (JsString × JsonData) → List Token
  | [] => [.closeObject]
  | [(name, value)] => .str name :: .colon :: (tokensOf value ++ [.closeObject])
  | (name, value) :: next :: members =>
    .str name :: .colon :: (tokensOf value ++ .comma :: memberTokens (next :: members))

end

theorem readValue_array {fuel : Nat} {tokens : List Token}
    (h : ∀ rest, tokens ≠ .closeArray :: rest) :
    readValue (fuel + 1) (.openArray :: tokens) =
      (readItems fuel tokens).map fun (items, rest) => (.arr items, rest) := by
  rw [readValue]
  exact h

theorem readValue_object {fuel : Nat} {tokens : List Token}
    (h : ∀ rest, tokens ≠ .closeObject :: rest) :
    readValue (fuel + 1) (.openObject :: tokens) =
      (readMembers fuel tokens).map fun (members, rest) => (.obj members, rest) := by
  rw [readValue]
  exact h

theorem itemTokens_ne_close (item : JsonData) (items : List JsonData) (rest more : List Token) :
    itemTokens (item :: items) ++ rest ≠ .closeArray :: more := by
  cases items <;> cases item <;> simp [itemTokens, tokensOf]

theorem memberTokens_ne_close (member : JsString × JsonData) (members : List (JsString × JsonData))
    (rest more : List Token) :
    memberTokens (member :: members) ++ rest ≠ .closeObject :: more := by
  cases members <;> simp [memberTokens]

/-- What is read with this much fuel. -/
structure Reads (fuel : Nat) : Prop where
  value : ∀ value, (tokensOf value).length ≤ fuel →
    ∀ rest, readValue fuel (tokensOf value ++ rest) = some (value, rest)
  items : ∀ item items, (itemTokens (item :: items)).length ≤ fuel →
    ∀ rest, readItems fuel (itemTokens (item :: items) ++ rest) = some (item :: items, rest)
  members : ∀ member members, (memberTokens (member :: members)).length ≤ fuel →
    ∀ rest, readMembers fuel (memberTokens (member :: members) ++ rest) =
      some (member :: members, rest)

theorem Reads.value_succ {fuel : Nat} (ih : Reads fuel) (value : JsonData)
    (h : (tokensOf value).length ≤ fuel + 1) (rest : List Token) :
    readValue (fuel + 1) (tokensOf value ++ rest) = some (value, rest) := by
  match value with
  | .null => rfl
  | .bool b => rfl
  | .num n => rfl
  | .str s => rfl
  | .arr [] => rfl
  | .arr (item :: items) =>
    simp only [tokensOf, List.length_cons, Nat.add_le_add_iff_right] at h
    rw [tokensOf, List.cons_append, readValue_array (itemTokens_ne_close item items rest),
      ih.items item items h rest]
    rfl
  | .obj [] => rfl
  | .obj (member :: members) =>
    simp only [tokensOf, List.length_cons, Nat.add_le_add_iff_right] at h
    rw [tokensOf, List.cons_append, readValue_object (memberTokens_ne_close member members rest),
      ih.members member members h rest]
    rfl

theorem Reads.items_succ {fuel : Nat} (ih : Reads fuel) (item : JsonData) (items : List JsonData)
    (h : (itemTokens (item :: items)).length ≤ fuel + 1) (rest : List Token) :
    readItems (fuel + 1) (itemTokens (item :: items) ++ rest) = some (item :: items, rest) := by
  cases items with
  | nil =>
    simp only [itemTokens, List.length_append, List.length_singleton,
      Nat.add_le_add_iff_right] at h
    simp only [itemTokens, List.append_assoc, readItems, ih.value item h, List.cons_append,
      List.nil_append]
  | cons next items =>
    simp only [itemTokens, List.length_append, List.length_cons] at h
    have hitem := ih.value item (by omega)
    have hitems := ih.items next items (by omega) rest
    simp only [itemTokens, List.append_assoc, readItems, hitem, List.cons_append, hitems,
      Option.map_some]

theorem Reads.members_succ {fuel : Nat} (ih : Reads fuel) (member : JsString × JsonData)
    (members : List (JsString × JsonData))
    (h : (memberTokens (member :: members)).length ≤ fuel + 1) (rest : List Token) :
    readMembers (fuel + 1) (memberTokens (member :: members) ++ rest) =
      some (member :: members, rest) := by
  obtain ⟨name, value⟩ := member
  cases members with
  | nil =>
    simp only [memberTokens, List.length_append, List.length_cons] at h
    have hvalue := ih.value value (by omega)
    simp only [memberTokens, List.append_assoc, List.cons_append, readMembers, hvalue,
      List.nil_append]
  | cons next members =>
    simp only [memberTokens, List.length_append, List.length_cons] at h
    have hvalue := ih.value value (by omega)
    have hmembers := ih.members next members (by omega) rest
    simp only [memberTokens, List.append_assoc, List.cons_append, readMembers, hvalue, hmembers,
      Option.map_some]

theorem tokensOf_pos (value : JsonData) : 0 < (tokensOf value).length := by
  cases value <;> simp [tokensOf]

theorem itemTokens_pos (items : List JsonData) : 0 < (itemTokens items).length := by
  rcases items with _ | ⟨item, _ | ⟨next, items⟩⟩
  · simp [itemTokens]
  · simp [itemTokens]
  · simp only [itemTokens, List.length_append, List.length_cons]
    omega

theorem memberTokens_pos (members : List (JsString × JsonData)) :
    0 < (memberTokens members).length := by
  rcases members with _ | ⟨member, _ | ⟨next, members⟩⟩ <;> simp [memberTokens]

/-- As much fuel as there are tokens is enough. -/
theorem reads (fuel : Nat) : Reads fuel := by
  induction fuel with
  | zero =>
    refine ⟨fun value h => ?_, fun item items h => ?_, fun member members h => ?_⟩
    · exact absurd (tokensOf_pos value) (Nat.not_lt.mpr h)
    · exact absurd (itemTokens_pos (item :: items)) (Nat.not_lt.mpr h)
    · exact absurd (memberTokens_pos (member :: members)) (Nat.not_lt.mpr h)
  | succ fuel ih => exact ⟨ih.value_succ, ih.items_succ, ih.members_succ⟩

/-- What was read is what stands there. -/
structure ReadsBack (fuel : Nat) : Prop where
  value : ∀ {tokens value rest}, readValue fuel tokens = some (value, rest) →
    tokens = tokensOf value ++ rest
  items : ∀ {tokens items rest}, readItems fuel tokens = some (items, rest) →
    tokens = itemTokens items ++ rest ∧ items ≠ []
  members : ∀ {tokens members rest}, readMembers fuel tokens = some (members, rest) →
    tokens = memberTokens members ++ rest ∧ members ≠ []

theorem ReadsBack.value_succ {fuel : Nat} (ih : ReadsBack fuel) {tokens rest : List Token}
    {value : JsonData} (h : readValue (fuel + 1) tokens = some (value, rest)) :
    tokens = tokensOf value ++ rest := by
  unfold readValue at h
  split at h
  · cases h
  · cases h
    rfl
  · cases h
    rfl
  · cases h
    rfl
  · cases h
    rfl
  · cases h
    rfl
  · obtain ⟨⟨items, after⟩, hitems, heq⟩ := Option.map_eq_some_iff.mp h
    cases heq
    rename_i _ hfuel
    cases hfuel
    obtain ⟨hread, -⟩ := ih.items hitems
    rw [hread]
    rfl
  · cases h
    rfl
  · obtain ⟨⟨members, after⟩, hmembers, heq⟩ := Option.map_eq_some_iff.mp h
    cases heq
    rename_i _ hfuel
    cases hfuel
    obtain ⟨hread, -⟩ := ih.members hmembers
    rw [hread]
    rfl
  · cases h

theorem ReadsBack.items_succ {fuel : Nat} (ih : ReadsBack fuel) {tokens rest : List Token}
    {items : List JsonData} (h : readItems (fuel + 1) tokens = some (items, rest)) :
    tokens = itemTokens items ++ rest ∧ items ≠ [] := by
  rw [readItems] at h
  split at h
  · rename_i item after hitem
    obtain ⟨⟨items, last⟩, hitems, heq⟩ := Option.map_eq_some_iff.mp h
    cases heq
    obtain ⟨hread, hne⟩ := ih.items hitems
    obtain ⟨next, items, rfl⟩ := List.exists_cons_of_ne_nil hne
    rw [ih.value hitem, hread]
    simp [itemTokens]
  · rename_i item after hitem
    cases h
    rw [ih.value hitem]
    simp [itemTokens]
  · cases h

theorem ReadsBack.members_succ {fuel : Nat} (ih : ReadsBack fuel) {tokens rest : List Token}
    {members : List (JsString × JsonData)}
    (h : readMembers (fuel + 1) tokens = some (members, rest)) :
    tokens = memberTokens members ++ rest ∧ members ≠ [] := by
  unfold readMembers at h
  split at h
  · cases h
  · rename_i name tokens hfuel
    cases hfuel
    split at h
    · rename_i value after hvalue
      obtain ⟨⟨members, last⟩, hmembers, heq⟩ := Option.map_eq_some_iff.mp h
      cases heq
      obtain ⟨hread, hne⟩ := ih.members hmembers
      obtain ⟨next, members, rfl⟩ := List.exists_cons_of_ne_nil hne
      rw [ih.value hvalue, hread]
      simp [memberTokens]
    · rename_i value after hvalue
      cases h
      rw [ih.value hvalue]
      simp [memberTokens]
    · cases h
  · cases h

theorem readsBack (fuel : Nat) : ReadsBack fuel := by
  induction fuel with
  | zero =>
    refine ⟨fun h => ?_, fun h => ?_, fun h => ?_⟩
    · simp [readValue] at h
    · simp [readItems] at h
    · simp [readMembers] at h
  | succ fuel ih => exact ⟨ih.value_succ, ih.items_succ, ih.members_succ⟩

/-- The parser accepts the tokens of a value, and nothing else. -/
theorem parseTokens_iff {tokens : List Token} {value : JsonData} :
    parseTokens tokens = some value ↔ tokens = tokensOf value := by
  unfold parseTokens
  constructor
  · intro h
    split at h
    · rename_i hread
      cases h
      have hback := (readsBack _).value hread
      rwa [List.append_nil] at hback
    · cases h
  · rintro rfl
    have hread := (reads _).value value (Nat.le_succ _) []
    rw [List.append_nil] at hread
    rw [hread]

/-- A JSON text: its tokens are those of this value. -/
def Denotes (text : JsString) (value : JsonData) : Prop := tokenize text = some (tokensOf value)

theorem parseJson_iff {text : JsString} {value : JsonData} :
    parseJson text = some value ↔ Denotes text value := by
  rw [parseJson, Option.bind_eq_some_iff, Denotes]
  constructor
  · rintro ⟨tokens, htokens, hparse⟩
    rw [htokens, parseTokens_iff.mp hparse]
  · intro h
    exact ⟨_, h, parseTokens_iff.mpr rfl⟩

end NewsApi.JsonText
