import NewsApi.Collections.OwnKeys
import NewsApi.Http.ReadBack

/-! # Values that were parsed

`JSON.parse` makes objects, whose properties are in order, and doubles. Such a
value is what comes back when it is written and parsed again. -/
namespace NewsApi.Http
open NewsApi.Text NewsApi.Types NewsApi.Utils NewsApi.JsonText NewsApi.Collections

/-- The number of an array index, which comes first among the own keys. -/
def arrayIndex (name : JsString) : Option Nat :=
  if isDigits name ∧ decimal (digitsValue name) = name ∧ digitsValue name < 2 ^ 32 - 1 then
    some (digitsValue name)
  else none

mutual

/-- The value of a text. -/
def valueOf : JsonData → Json
  | .null => .null
  | .bool b => .bool b
  | .num n => .num n
  | .str s => .str s
  | .arr items => .arr (valuesOfItems items)
  | .obj members => .obj (ownProperties arrayIndex (valuesOfMembers members))

def valuesOfItems : List JsonData → List Json
  | [] => []
  | item :: items => valueOf item :: valuesOfItems items

def valuesOfMembers : List (JsString × JsonData) → List (JsString × Json)
  | [] => []
  | (name, value) :: members => (name, valueOf value) :: valuesOfMembers members

end

/-- A number of the runtime is a double if it is finite. -/
def IsNumber : JsNumber → Prop
  | .finite q => IsDouble q
  | _ => True

mutual

/-- A value that `JSON.parse` may have made. -/
def IsParsed : Json → Prop
  | .null | .bool _ | .str _ => True
  | .num n => IsNumber n
  | .arr items => AreParsed items
  | .obj members => IsOwn arrayIndex members ∧ MembersParsed members

def AreParsed : List Json → Prop
  | [] => True
  | item :: items => IsParsed item ∧ AreParsed items

def MembersParsed : List (JsString × Json) → Prop
  | [] => True
  | (_, value) :: members => IsParsed value ∧ MembersParsed members

end

theorem membersParsed_iff {members : List (JsString × Json)} :
    MembersParsed members ↔ ∀ member ∈ members, IsParsed member.2 := by
  induction members with
  | nil => exact ⟨fun _ => nofun, fun _ => trivial⟩
  | cons member members ih => rw [MembersParsed, ih, List.forall_mem_cons]

/-! ## Parsed values are parsed -/

/-- The number that a token shows, if any, is one of the runtime. -/
def TokenParsed : Token → Prop
  | .num n => IsNumber n
  | _ => True

theorem toDouble_number (q : Rat) : IsNumber (toDouble q) := by
  cases h : toDouble q with
  | finite value => exact toDouble_isDouble h
  | _ => trivial

theorem numberOfString_number (s : JsString) : IsNumber (numberOfString s) := by
  have hzero : IsDouble 0 := by decide
  have hradix : ∀ (radix : Nat) (digits : JsString), IsNumber (radixNumber radix digits) := by
    intro radix digits
    unfold radixNumber
    split
    · exact toDouble_number _
    · trivial
  have hdecimal : ∀ (negative : Bool) (digits : JsString),
      IsNumber (decimalNumber negative digits) := by
    intro negative digits
    unfold decimalNumber
    split
    · trivial
    · split
      · exact toDouble_number _
      · trivial
  unfold numberOfString
  split
  · exact hzero
  all_goals first | exact hradix _ _ | exact hdecimal _ _

theorem wordToken_parsed {word : JsString} {token : Token} (h : wordToken word = some token) :
    TokenParsed token := by
  unfold wordToken at h
  split_ifs at h
  · cases h; trivial
  · cases h; trivial
  · cases h; trivial
  · cases h
    exact numberOfString_number word

theorem scanBetween_parsed (c : CodeUnit) : ∀ token ∈ (scanBetween c).2, TokenParsed token := by
  unfold scanBetween
  split_ifs
  · nofun
  · nofun
  · split
    · rename_i token htoken
      refine List.forall_mem_singleton.mpr ?_
      unfold punctuation at htoken
      split_ifs at htoken <;> cases htoken <;> trivial
    · nofun

theorem scan_parsed {mode next : Mode} {c : CodeUnit} {tokens : List Token}
    (h : scan mode c = some (next, tokens)) : ∀ token ∈ tokens, TokenParsed token := by
  unfold scan at h
  split at h
  · have hbetween := scanBetween_parsed c
    rw [Option.some.inj h] at hbetween
    exact hbetween
  · split at h
    · obtain ⟨token, htoken, heq⟩ := Option.map_eq_some_iff.mp h
      cases heq
      exact List.forall_mem_cons.mpr ⟨wordToken_parsed htoken, scanBetween_parsed c⟩
    · cases h
      nofun
  · split_ifs at h <;> cases h
    · exact List.forall_mem_singleton.mpr trivial
    · nofun
    · nofun
  · split_ifs at h
    · cases h
      nofun
    · obtain ⟨d, -, heq⟩ := Option.map_eq_some_iff.mp h
      cases heq
      nofun
  · split_ifs at h
    · simp only at h
      split_ifs at h <;> cases h <;> nofun

theorem scanAll_parsed (text : JsString) : ∀ {mode : Mode} {tokens : List Token},
    scanAll mode text = some tokens → ∀ token ∈ tokens, TokenParsed token := by
  induction text with
  | nil =>
    intro mode tokens h
    rw [scanAll] at h
    unfold scanEnd at h
    split at h
    · cases h
      exact List.forall_mem_nil _
    · obtain ⟨token, htoken, rfl⟩ := Option.map_eq_some_iff.mp h
      exact List.forall_mem_singleton.mpr (wordToken_parsed htoken)
    · cases h
  | cons c text ih =>
    intro mode tokens h
    obtain ⟨⟨next, first⟩, hscan, hmore⟩ := Option.bind_eq_some_iff.mp h
    obtain ⟨rest, hrest, rfl⟩ := Option.map_eq_some_iff.mp hmore
    exact List.forall_mem_append.mpr ⟨scan_parsed hscan, ih hrest⟩

theorem mem_itemTokens {item : JsonData} {items : List JsonData} {token : Token}
    (h : token ∈ tokensOf item ∨ items ≠ [] ∧ token ∈ itemTokens items) :
    token ∈ itemTokens (item :: items) := by
  cases items with
  | nil => simp_all [itemTokens]
  | cons next items =>
    simp only [itemTokens, List.mem_append, List.mem_cons]
    exact h.imp_right fun hmem => .inr hmem.2

theorem mem_memberTokens {name : JsString} {value : JsonData}
    {members : List (JsString × JsonData)} {token : Token}
    (h : token ∈ tokensOf value ∨ members ≠ [] ∧ token ∈ memberTokens members) :
    token ∈ memberTokens ((name, value) :: members) := by
  cases members with
  | nil => simp_all [memberTokens]
  | cons next members =>
    simp only [memberTokens, List.mem_append, List.mem_cons]
    exact .inr (.inr (h.imp_right fun hmem => .inr hmem.2))

mutual

theorem valueOf_parsed : ∀ data : JsonData,
    (∀ token ∈ tokensOf data, TokenParsed token) → IsParsed (valueOf data)
  | .null, _ => trivial
  | .bool _, _ => trivial
  | .num _, h => h _ List.mem_cons_self
  | .str _, _ => trivial
  | .arr items, h => valuesOfItems_parsed items fun token hmem =>
    h token (List.mem_cons_of_mem _ hmem)
  | .obj members, h => by
    have hparsed := membersParsed_iff.mp
      (valuesOfMembers_parsed members fun token hmem => h token (List.mem_cons_of_mem _ hmem))
    exact ⟨ownProperties_isOwn _,
      membersParsed_iff.mpr fun member hmem => hparsed member (mem_ownProperties hmem)⟩

theorem valuesOfItems_parsed : ∀ items : List JsonData,
    (∀ token ∈ itemTokens items, TokenParsed token) → AreParsed (valuesOfItems items)
  | [], _ => trivial
  | item :: items, h => by
    refine ⟨valueOf_parsed item fun token hmem => h token (mem_itemTokens (.inl hmem)), ?_⟩
    cases items with
    | nil => trivial
    | cons next items =>
      exact valuesOfItems_parsed (next :: items) fun token hmem =>
        h token (mem_itemTokens (.inr ⟨List.cons_ne_nil _ _, hmem⟩))

theorem valuesOfMembers_parsed : ∀ members : List (JsString × JsonData),
    (∀ token ∈ memberTokens members, TokenParsed token) → MembersParsed (valuesOfMembers members)
  | [], _ => trivial
  | (name, value) :: members, h => by
    refine ⟨valueOf_parsed value fun token hmem => h token (mem_memberTokens (.inl hmem)), ?_⟩
    cases members with
    | nil => trivial
    | cons next members =>
      exact valuesOfMembers_parsed (next :: members) fun token hmem =>
        h token (mem_memberTokens (.inr ⟨List.cons_ne_nil _ _, hmem⟩))

end

/-- Whatever `JSON.parse` reads, it makes a parsed value of. -/
theorem parseJson_parsed {text : JsString} {data : JsonData} (h : parseJson text = some data) :
    IsParsed (valueOf data) := by
  have hdenotes : Denotes text data := parseJson_iff.mp h
  exact valueOf_parsed data (scanAll_parsed text hdenotes)

/-! ## Parsed values are read back

All but the infinities, which JSON has no text for. -/

mutual

/-- What a value is once it was written and parsed. -/
def reread : Json → Json
  | .null => .null
  | .bool b => .bool b
  | .num (.finite q) => .num (.finite q)
  | .num _ => .null
  | .str s => .str s
  | .arr items => .arr (rereadItems items)
  | .obj members => .obj (rereadMembers members)

def rereadItems : List Json → List Json
  | [] => []
  | item :: items => reread item :: rereadItems items

def rereadMembers : List (JsString × Json) → List (JsString × Json)
  | [] => []
  | (name, value) :: members => (name, reread value) :: rereadMembers members

end

mutual

/-- All numbers in the value are finite. -/
def IsFinite : Json → Prop
  | .num (.finite _) | .null | .bool _ | .str _ => True
  | .num _ => False
  | .arr items => AreFinite items
  | .obj members => MembersFinite members

def AreFinite : List Json → Prop
  | [] => True
  | item :: items => IsFinite item ∧ AreFinite items

def MembersFinite : List (JsString × Json) → Prop
  | [] => True
  | (_, value) :: members => IsFinite value ∧ MembersFinite members

end

theorem rereadItems_map (items : List Json) : rereadItems items = items.map reread := by
  induction items with
  | nil => rfl
  | cons item items ih => rw [rereadItems, ih, List.map_cons]

theorem rereadMembers_map (members : List (JsString × Json)) :
    rereadMembers members = members.map (Prod.map id reread) := by
  induction members with
  | nil => rfl
  | cons member members ih => rw [rereadMembers, ih, List.map_cons, Prod.map, id]

mutual

theorem reread_finite : ∀ value : Json, IsFinite value → reread value = value
  | .null, _ | .bool _, _ | .num (.finite _), _ | .str _, _ => rfl
  | .arr items, h => congrArg Json.arr (rereadItems_finite items h)
  | .obj members, h => congrArg Json.obj (rereadMembers_finite members h)

theorem rereadItems_finite : ∀ items : List Json, AreFinite items → rereadItems items = items
  | [], _ => rfl
  | item :: items, h => by
    rw [rereadItems, reread_finite item h.1, rereadItems_finite items h.2]

theorem rereadMembers_finite : ∀ members : List (JsString × Json), MembersFinite members →
    rereadMembers members = members
  | [], _ => rfl
  | (name, value) :: members, h => by
    rw [rereadMembers, reread_finite value h.1, rereadMembers_finite members h.2]

end

mutual

/-- The second time, a value is read back as it is. -/
theorem finite_reread : ∀ value : Json, IsFinite (reread value)
  | .null | .bool _ | .num (.finite _) | .num .nan | .num (.infinity _) | .str _ => trivial
  | .arr items => finite_rereadItems items
  | .obj members => finite_rereadMembers members

theorem finite_rereadItems : ∀ items : List Json, AreFinite (rereadItems items)
  | [] => trivial
  | item :: items => ⟨finite_reread item, finite_rereadItems items⟩

theorem finite_rereadMembers : ∀ members : List (JsString × Json),
    MembersFinite (rereadMembers members)
  | [] => trivial
  | (_, value) :: members => ⟨finite_reread value, finite_rereadMembers members⟩

end

theorem reread_reread (value : Json) : reread (reread value) = reread value :=
  reread_finite _ (finite_reread value)

mutual

theorem ofJson_read : ∀ value : Json, IsParsed value →
    (∀ n ∈ numbersOf (ofJson value), IsDouble n) ∧
      (dataOf (ofJson value)).map valueOf = some (reread value)
  | .null, _ => ⟨nofun, rfl⟩
  | .bool _, _ => ⟨nofun, rfl⟩
  | .num (.finite _), h => ⟨List.forall_mem_singleton.mpr h, rfl⟩
  | .num .nan, _ => ⟨nofun, rfl⟩
  | .num (.infinity _), _ => ⟨nofun, rfl⟩
  | .str _, _ => ⟨nofun, rfl⟩
  | .arr items, h => by
    obtain ⟨hnumbers, hread⟩ := ofJsonItems_read items h
    exact ⟨hnumbers, by simp [ofJson, dataOf, valueOf, reread, hread]⟩
  | .obj members, h => by
    obtain ⟨hnumbers, hread⟩ := ofJsonMembers_read members h.2
    have hown : IsOwn arrayIndex (rereadMembers members) := by
      rw [rereadMembers_map]
      exact h.1.map reread
    exact ⟨hnumbers, by simp [ofJson, dataOf, valueOf, reread, hread, hown.ownProperties]⟩

theorem ofJsonItems_read : ∀ items : List Json, AreParsed items →
    (∀ n ∈ numbersOfItems (ofJsonItems items), IsDouble n) ∧
      valuesOfItems (dataOfItems (ofJsonItems items)) = rereadItems items
  | [], _ => ⟨nofun, rfl⟩
  | item :: items, h => by
    obtain ⟨hitem, hread⟩ := ofJson_read item h.1
    obtain ⟨hitems, hreads⟩ := ofJsonItems_read items h.2
    refine ⟨List.forall_mem_append.mpr ⟨hitem, hitems⟩, ?_⟩
    obtain ⟨data, hdata, hvalue⟩ := Option.map_eq_some_iff.mp hread
    simp [ofJsonItems, dataOfItems, valuesOfItems, rereadItems, hdata, hvalue, hreads]

theorem ofJsonMembers_read : ∀ members : List (JsString × Json), MembersParsed members →
    (∀ n ∈ numbersOfMembers (ofJsonMembers members), IsDouble n) ∧
      valuesOfMembers (dataOfMembers (ofJsonMembers members)) = rereadMembers members
  | [], _ => ⟨nofun, rfl⟩
  | (name, value) :: members, h => by
    obtain ⟨hvalue, hread⟩ := ofJson_read value h.1
    obtain ⟨hmembers, hreads⟩ := ofJsonMembers_read members h.2
    refine ⟨List.forall_mem_append.mpr ⟨hvalue, hmembers⟩, ?_⟩
    obtain ⟨data, hdata, hown⟩ := Option.map_eq_some_iff.mp hread
    simp [ofJsonMembers, dataOfMembers, valuesOfMembers, rereadMembers, hdata, hown, hreads]

end

/-- **A parsed value is written as a text that parses to it**, up to its infinities. -/
theorem stringify_parsed {value : Json} (h : IsParsed value) :
    ∃ text data, stringify (ofJson value) = some text ∧ parseJson text = some data ∧
      valueOf data = reread value := by
  obtain ⟨hnumbers, hread⟩ := ofJson_read value h
  rw [← parseJson_stringify hnumbers] at hread
  obtain ⟨data, hdata, hvalue⟩ := Option.map_eq_some_iff.mp hread
  obtain ⟨text, htext, hparse⟩ := Option.bind_eq_some_iff.mp hdata
  exact ⟨text, data, htext, hparse, hvalue⟩

/-! ## Articles stay articles

The guards look at no number. -/

theorem reread_get (value : Json) (name : JsString) :
    (reread value).get name = (value.get name).map reread := by
  cases value with
  | obj members =>
    show (rereadMembers members).lookup name = (members.lookup name).map reread
    induction members with
    | nil => rfl
    | cons member members ih =>
      obtain ⟨own, value⟩ := member
      rw [rereadMembers, List.lookup_cons, List.lookup_cons, ih]
      cases name == own <;> rfl
  | num n => cases n <;> rfl
  | _ => rfl

theorem reread_isRecord (value : Json) : isRecord (reread value) = isRecord value := by
  cases value with
  | num n => cases n <;> rfl
  | _ => rfl

theorem reread_isString (value : Option Json) :
    isString (value.map reread) = isString value := by
  rcases value with _ | _ | _ | (_ | _ | _) | _ | _ | _ <;> rfl

theorem reread_isStringOrNull {value : Option Json} (h : isStringOrNull value = true) :
    isStringOrNull (value.map reread) = true := by
  rcases value with _ | _ | _ | (_ | _ | _) | _ | _ | _ <;> first | rfl | cases h

theorem reread_isArticleSource (value : Option Json) :
    isArticleSource (value.map reread) = isArticleSource value := by
  cases value with
  | none => rfl
  | some source =>
    simp only [Option.map_some, isArticleSource, reread_isRecord, reread_get, reread_isString]

theorem reread_isArticle {value : Json} (h : isArticle value = true) :
    isArticle (reread value) = true := by
  simp only [isArticle, Bool.and_eq_true] at h
  obtain ⟨⟨⟨⟨⟨⟨⟨hrecord, htitle⟩, hdescription⟩, hcontent⟩, hurl⟩, himage⟩, hpublished⟩,
    hsource⟩ := h
  simp only [isArticle, reread_get, reread_isRecord, reread_isString, reread_isArticleSource,
    hrecord, htitle, hurl, hpublished, hsource, reread_isStringOrNull hdescription,
    reread_isStringOrNull hcontent, reread_isStringOrNull himage, Bool.and_self]

theorem reread_isArticleList {value : Json} (h : isArticleList value = true) :
    isArticleList (reread value) = true := by
  cases value with
  | arr items =>
    show (rereadItems items).all isArticle = true
    rw [rereadItems_map, List.all_map]
    exact List.all_eq_true.mpr fun item hitem => reread_isArticle (List.all_eq_true.mp h item hitem)
  | _ => cases h

def rereadList (articles : ArticleList) : ArticleList :=
  ⟨reread articles.value, reread_isArticleList articles.isList⟩

end NewsApi.Http
