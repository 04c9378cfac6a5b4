import NewsApi.Http.Stringify
import NewsApi.Text.Base64

/-! # Entity tags -/
namespace NewsApi.Http
open NewsApi.Text NewsApi.Errors

section
variable (sha256 : List UInt8 → Digest)

/-- `` `W/"sha256-${digest}"` `` -/
def tagOf (text : JsString) : JsString :=
  js "W/\"sha256-" ++ (base64url (sha256 (utf8 text)).toList ++ [0x22])

/-- A hash cannot be fed with `undefined`. -/
def createWeakEntityTag (representation : JsonValue) : Except JsError JsString :=
  match stringify representation with
  | some serialized => .ok (tagOf sha256 serialized)
  | none => .error (.other "TypeError" (some "ERR_INVALID_ARG_TYPE"))

end

/-! ## Reading `If-None-Match` -/

/-- Up to the closing quote, which is included. -/
def readOpaque : JsString → Option (JsString × JsString)
  | [] => none
  | [0x5C] => none
  | 0x5C :: c :: rest => (readOpaque rest).map fun (text, rest) => (0x5C :: c :: text, rest)
  | 0x22 :: rest => some ([0x22], rest)
  | c :: rest => (readOpaque rest).map fun (text, rest) => (c :: text, rest)

def weakPrefix (header : JsString) : JsString := if (js "W/").isPrefixOf header then js "W/" else []

/-- What the loop of `parseEntityTags` does at `header[index]`: the tag it
finds, if any, and what is left of the header, if it goes on. -/
def entityTagAt : JsString → Option JsString × Option JsString
  | [] => (none, none)
  | 0x2A :: rest => (some [0x2A], some rest)
  | header =>
    let weak := weakPrefix header
    match header.drop weak.length with
    | 0x22 :: rest =>
      match readOpaque rest with
      | some (text, rest) => (some (weak ++ 0x22 :: text), some (rest.dropWhile (· != 0x2C)))
      | none => (none, none)
    | rest => (none, some (rest.dropWhile (· != 0x2C)))

def skipSeparators (header : JsString) : JsString :=
  header.dropWhile fun c => c == 0x2C || isWhitespace c

theorem readOpaque_shorter {s text rest : JsString} (h : readOpaque s = some (text, rest)) :
    rest.length < s.length := by
  induction s using readOpaque.induct generalizing text with
  | case1 => cases h
  | case2 => cases h
  | case3 c s ih =>
    simp only [readOpaque, Option.map_eq_some_iff, Prod.exists, Prod.mk.injEq] at h
    obtain ⟨text', rest', hread, -, rfl⟩ := h
    have := ih hread
    simp only [List.length_cons]
    omega
  | case4 s => cases h; exact Nat.lt_succ_self _
  | case5 c s h1 h2 h3 ih =>
    rw [readOpaque] at h
    · simp only [Option.map_eq_some_iff, Prod.exists, Prod.mk.injEq] at h
      obtain ⟨text', rest', hread, -, rfl⟩ := h
      have := ih hread
      simp only [List.length_cons]
      omega
    all_goals assumption

theorem dropWhile_length {p : CodeUnit → Bool} (s : JsString) :
    (s.dropWhile p).length ≤ s.length := (List.dropWhile_sublist p).length_le

/-- The loop makes progress where it does not stand at a separator. -/
theorem entityTagAt_shorter {header rest : JsString} {tag : Option JsString}
    (hhead : ∀ c tail, header = c :: tail → (c != 0x2C) = true)
    (h : entityTagAt header = (tag, some rest)) : rest.length < header.length := by
  unfold entityTagAt at h
  split at h
  · cases h
  · cases h
    exact Nat.lt_succ_self _
  · rename_i hne hstar
    dsimp only at h
    have hdrop : (header.drop (weakPrefix header).length).length =
        header.length - (weakPrefix header).length := List.length_drop
    split at h
    · rename_i body hbody
      rw [hbody, List.length_cons] at hdrop
      split at h
      · rename_i text after hread
        cases h
        have h1 := @dropWhile_length (· != 0x2C) after
        have h2 := readOpaque_shorter hread
        omega
      · cases h
    · cases h
      cases header with
      | nil => exact (hne rfl).elim
      | cons c tail =>
        unfold weakPrefix at hdrop ⊢
        split
        · rename_i hweak
          rw [if_pos hweak] at hdrop
          have := @dropWhile_length (· != 0x2C) ((c :: tail).drop (js "W/").length)
          rw [List.length_cons] at hdrop ⊢
          have : (js "W/").length = 2 := rfl
          omega
        · rw [List.length_nil, List.drop_zero, List.dropWhile_cons, if_pos (hhead c tail rfl)]
          exact Nat.lt_succ_of_le (dropWhile_length tail)

theorem skipSeparators_head {header : JsString} (c : CodeUnit) (tail : JsString)
    (h : skipSeparators header = c :: tail) : (c != 0x2C) = true := by
  have := List.head?_dropWhile_not (fun c => c == 0x2C || isWhitespace c) header
  unfold skipSeparators at h
  rw [h] at this
  simp only [List.head?_cons, Bool.or_eq_false_iff, beq_eq_false_iff_ne] at this
  simpa using this.1

theorem nextEntityTag_shorter {header rest : JsString} {tag : Option JsString}
    (h : entityTagAt (skipSeparators header) = (tag, some rest)) :
    rest.length < header.length :=
  Nat.lt_of_lt_of_le (entityTagAt_shorter skipSeparators_head h) (dropWhile_length header)

def parseEntityTags (header : JsString) : List JsString :=
  match _h : entityTagAt (skipSeparators header) with
  | (tag, none) => tag.toList
  | (tag, some rest) => tag.toList ++ parseEntityTags rest
termination_by header.length
decreasing_by exact nextEntityTag_shorter _h

def withoutWeakPrefix (tag : JsString) : JsString := tag.drop (weakPrefix tag).length

/-- `header.join(",")` -/
def joinHeader : List JsString → JsString
  | [] => []
  | [value] => value
  | value :: values => value ++ 0x2C :: joinHeader values

def matchesIfNoneMatch (header : Option HeaderValue) (currentTag : JsString) : Bool :=
  match header with
  | none | some (.str []) => false
  | some header =>
    let value := match header with
      | .str value => value
      | .arr values => joinHeader values
    (parseEntityTags value).any fun candidate =>
      candidate == [0x2A] || withoutWeakPrefix candidate == withoutWeakPrefix currentTag

/-! ## Issued tags -/

section
variable {sha256 : List UInt8 → Digest}

end

end NewsApi.Http
