import Mathlib.Tactic.SplitIfs

/-! # Strings of the runtime

A string is the list of its UTF-16 code units, lone surrogates included.
`quote` is `QuoteJSONString`: the text `JSON.stringify` writes for a string.
It can be read back, so what follows it is determined too. -/
namespace NewsApi.Text

abbrev CodeUnit := UInt16
abbrev JsString := List CodeUnit

/-- An ASCII literal of the source. -/
def js (s : String) : JsString := s.toList.map fun c => UInt16.ofNat c.toNat

/-! ## JSON strings -/

def isLeadingSurrogate (c : CodeUnit) : Bool := 0xD800 ≤ c && c ≤ 0xDBFF
def isTrailingSurrogate (c : CodeUnit) : Bool := 0xDC00 ≤ c && c ≤ 0xDFFF

def hexDigit (n : Nat) : CodeUnit := UInt16.ofNat (if n < 10 then 48 + n else 87 + n)

/-- `\uXXXX` with lower-case digits. -/
def unicodeEscape (c : CodeUnit) : JsString :=
  [0x5C, 0x75, hexDigit (c.toNat / 4096), hexDigit (c.toNat / 256 % 16),
    hexDigit (c.toNat / 16 % 16), hexDigit (c.toNat % 16)]

/-- A code unit outside a surrogate pair. -/
def escapeUnit (c : CodeUnit) : JsString :=
  if c = 0x08 then [0x5C, 0x62]
  else if c = 0x09 then [0x5C, 0x74]
  else if c = 0x0A then [0x5C, 0x6E]
  else if c = 0x0C then [0x5C, 0x66]
  else if c = 0x0D then [0x5C, 0x72]
  else if c = 0x22 then [0x5C, 0x22]
  else if c = 0x5C then [0x5C, 0x5C]
  else if c < 0x20 || isLeadingSurrogate c || isTrailingSurrogate c then unicodeEscape c
  else [c]

def escape : JsString → JsString
  | [] => []
  | [c] => escapeUnit c
  | c :: d :: rest =>
    if isLeadingSurrogate c && isTrailingSurrogate d then c :: d :: escape rest
    else escapeUnit c ++ escape (d :: rest)

def quote (s : JsString) : JsString := 0x22 :: (escape s ++ [0x22])

/-! ## Reading a JSON string back -/

def hexValue (c : CodeUnit) : Nat := if c.toNat < 58 then c.toNat - 48 else c.toNat - 87

def unescapeUnit (c : CodeUnit) : CodeUnit :=
  if c = 0x62 then 0x08
  else if c = 0x74 then 0x09
  else if c = 0x6E then 0x0A
  else if c = 0x66 then 0x0C
  else if c = 0x72 then 0x0D
  else c

def consUnit (c : CodeUnit) (p : JsString × JsString) : JsString × JsString := (c :: p.1, p.2)

/-- Read up to the closing quote: the string and what follows. -/
def unescape : JsString → Option (JsString × JsString)
  | [] => none
  | 0x22 :: rest => some ([], rest)
  | 0x5C :: 0x75 :: a :: b :: c :: d :: rest =>
    (unescape rest).map (consUnit (UInt16.ofNat
      (hexValue a * 4096 + hexValue b * 256 + hexValue c * 16 + hexValue d)))
  | 0x5C :: e :: rest => (unescape rest).map (consUnit (unescapeUnit e))
  | c :: rest => (unescape rest).map (consUnit c)

theorem hexValue_hexDigit : ∀ n, n < 16 → hexValue (hexDigit n) = n := by decide

theorem unescape_plain {c : CodeUnit} (rest : JsString) (hq : c ≠ 0x22) (hb : c ≠ 0x5C) :
    unescape (c :: rest) = (unescape rest).map (consUnit c) := by
  rw [unescape.eq_def]
  split <;> simp_all

theorem unescape_unicode (c : CodeUnit) (rest : JsString) :
    unescape (unicodeEscape c ++ rest) = (unescape rest).map (consUnit c) := by
  have hlt := c.toNat_lt
  have hc : UInt16.ofNat (c.toNat / 4096 * 4096 + c.toNat / 256 % 16 * 256 +
      c.toNat / 16 % 16 * 16 + c.toNat % 16) = c := by
    rw [show c.toNat / 4096 * 4096 + c.toNat / 256 % 16 * 256 + c.toNat / 16 % 16 * 16 +
      c.toNat % 16 = c.toNat by omega]
    exact UInt16.ofNat_toNat
  simp only [unicodeEscape, List.cons_append, List.nil_append, unescape]
  rw [hexValue_hexDigit _ (by omega), hexValue_hexDigit _ (by omega),
    hexValue_hexDigit _ (by omega), hexValue_hexDigit _ (by omega), hc]

theorem unescape_escapeUnit (c : CodeUnit) (rest : JsString) :
    unescape (escapeUnit c ++ rest) = (unescape rest).map (consUnit c) := by
  unfold escapeUnit
  split_ifs with h1 h2 h3 h4 h5 h6 h7 h8
  · subst h1; rfl
  · subst h2; rfl
  · subst h3; rfl
  · subst h4; rfl
  · subst h5; rfl
  · subst h6; rfl
  · subst h7; rfl
  · exact unescape_unicode c rest
  · exact unescape_plain rest h6 h7

theorem surrogate_plain {c : CodeUnit} (h : isLeadingSurrogate c ∨ isTrailingSurrogate c) :
    c ≠ 0x22 ∧ c ≠ 0x5C := by
  constructor <;> rintro rfl <;> revert h <;> decide

theorem unescape_escape (s rest : JsString) :
    unescape (escape s ++ 0x22 :: rest) = some (s, rest) := by
  induction s using escape.induct with
  | case1 => rfl
  | case2 c => rw [escape, unescape_escapeUnit]; rfl
  | case3 c d s hp ih =>
    obtain ⟨hc, hd⟩ := Bool.and_eq_true_iff.mp hp
    obtain ⟨hc1, hc2⟩ := surrogate_plain (Or.inl hc)
    obtain ⟨hd1, hd2⟩ := surrogate_plain (Or.inr hd)
    rw [escape, if_pos hp, List.cons_append, List.cons_append, unescape_plain _ hc1 hc2,
      unescape_plain _ hd1 hd2, ih]
    rfl
  | case4 c d s hp ih =>
    rw [escape, if_neg hp, List.append_assoc, unescape_escapeUnit, ih]
    rfl

/-- A quoted string and what follows it are determined by the text. -/
theorem quote_append_inj {s t r r' : JsString} (h : quote s ++ r = quote t ++ r') :
    s = t ∧ r = r' := by
  simp only [quote, List.cons_append, List.append_assoc, List.cons.injEq, List.nil_append,
    true_and] at h
  have := congrArg unescape h
  rw [unescape_escape, unescape_escape] at this
  simpa using this

/-! ## JSON numbers -/

def isDigit (c : CodeUnit) : Bool := 0x30 ≤ c && c ≤ 0x39

def digitsValue (s : JsString) : Nat := s.foldl (fun n c => n * 10 + (c.toNat - 0x30)) 0

/-- `String(n)` of a safe integer. -/
def decimal (n : Nat) : JsString := (Nat.toDigits 10 n).map fun c => UInt16.ofNat c.toNat

theorem digit_toNat {c : Char} (h : c.isDigit = true) : 48 ≤ c.toNat ∧ c.toNat ≤ 57 := by
  simpa [Char.isDigit, UInt32.le_iff_toNat_le] using h

theorem unit_toNat {c : Char} (h : c.isDigit = true) :
    (UInt16.ofNat c.toNat).toNat = c.toNat := by
  have := digit_toNat h
  rw [UInt16.toNat_ofNat']
  omega

theorem toDigits_isDigit {n : Nat} {c : Char} (h : c ∈ Nat.toDigits 10 n) : c.isDigit = true :=
  Nat.isDigit_of_mem_toDigits (by decide) (by decide) h

theorem decimal_digits {n : Nat} {c : CodeUnit} (h : c ∈ decimal n) : isDigit c = true := by
  obtain ⟨d, hd, rfl⟩ := List.mem_map.mp h
  have hdigit := toDigits_isDigit hd
  simpa [isDigit, UInt16.le_iff_toNat_le, unit_toNat hdigit] using digit_toNat hdigit

theorem digitsValue_decimal (n : Nat) : digitsValue (decimal n) = n := by
  have hfold : ∀ (l : List Char) (init : Nat), (∀ c ∈ l, c.isDigit = true) →
      (l.map fun c => UInt16.ofNat c.toNat).foldl (fun n c => n * 10 + (c.toNat - 0x30)) init =
        Nat.ofDigitChars 10 l init := by
    intro l
    induction l with
    | nil => exact fun _ _ => rfl
    | cons c l ih =>
      intro init hl
      rw [List.map_cons, List.foldl_cons, Nat.ofDigitChars_cons,
        unit_toNat (hl c List.mem_cons_self), ih _ fun d hd => hl d (List.mem_cons_of_mem c hd),
        Nat.mul_comm]
      rfl
  rw [digitsValue, decimal, hfold _ _ fun c => toDigits_isDigit]
  exact Nat.ofDigitChars_toDigits (by decide) (by decide)

/-- Two texts up to their first character that `p` rejects. -/
theorem append_cons_inj {α : Type} {p : α → Bool} {xs ys r r' : List α} {d d' : α}
    (hx : ∀ x ∈ xs, p x = true) (hy : ∀ y ∈ ys, p y = true) (hd : p d = false)
    (hd' : p d' = false) (h : xs ++ d :: r = ys ++ d' :: r') : xs = ys ∧ d :: r = d' :: r' := by
  induction xs generalizing ys with
  | nil =>
    cases ys with
    | nil => exact ⟨rfl, h⟩
    | cons y ys =>
      rw [(List.cons.inj h).1, hy y List.mem_cons_self] at hd
      cases hd
  | cons x xs ih =>
    cases ys with
    | nil =>
      rw [← (List.cons.inj h).1, hx x List.mem_cons_self] at hd'
      cases hd'
    | cons y ys =>
      obtain ⟨hxy, hrest⟩ := List.cons.inj h
      obtain ⟨hxs, hr⟩ := ih (fun x hx' => hx x (List.mem_cons_of_mem _ hx'))
        (fun y hy' => hy y (List.mem_cons_of_mem _ hy')) hrest
      exact ⟨by rw [hxy, hxs], hr⟩

/-! ## JSON objects -/

/-- `,` or the closing brace: what follows a member's value. -/
def isDelimiter (c : CodeUnit) : Bool := c == 0x2C || c == 0x7D

/-- The text of a value is determined by what it is followed with. -/
def SelfDelimiting {α : Type} (text : α → JsString) : Prop :=
  ∀ a b d d' r r', isDelimiter d = true → isDelimiter d' = true →
    text a ++ d :: r = text b ++ d' :: r' → a = b ∧ d :: r = d' :: r'

theorem delimiter_cases {d : CodeUnit} (h : isDelimiter d = true) : d = 0x2C ∨ d = 0x7D := by
  simpa [isDelimiter] using h

theorem quote_selfDelimiting : SelfDelimiting quote :=
  fun _ _ _ _ _ _ _ _ h => quote_append_inj h

theorem decimal_selfDelimiting : SelfDelimiting decimal := by
  intro n m d d' r r' hd hd' h
  have hnot : ∀ {c : CodeUnit}, isDelimiter c = true → isDigit c = false := by
    intro c hc
    rcases delimiter_cases hc with rfl | rfl <;> decide
  obtain ⟨htext, hrest⟩ := append_cons_inj (fun _ => decimal_digits) (fun _ => decimal_digits)
    (hnot hd) (hnot hd') h
  refine ⟨?_, hrest⟩
  rw [← digitsValue_decimal n, htext, digitsValue_decimal]

/-- A string or `null`. -/
def nullable : Option JsString → JsString
  | some s => quote s
  | none => js "null"

theorem nullable_selfDelimiting : SelfDelimiting nullable := by
  intro a b d d' r r' hd hd' h
  cases a with
  | some s =>
    cases b with
    | some t =>
      obtain ⟨rfl, hr⟩ := quote_append_inj h
      exact ⟨rfl, hr⟩
    | none => exact absurd (List.cons.inj h).1 (by decide)
  | none =>
    cases b with
    | some t => exact absurd (List.cons.inj h).1 (by decide)
    | none => exact ⟨rfl, List.append_cancel_left h⟩

/-- The members of an object from their names and the texts of their values. -/
def jsonMembers : List (JsString × JsString) → JsString
  | [] => [0x7D]
  | [(name, text)] => quote name ++ 0x3A :: (text ++ [0x7D])
  | (name, text) :: members => quote name ++ 0x3A :: (text ++ 0x2C :: jsonMembers members)

def jsonObject (members : List (JsString × JsString)) : JsString := 0x7B :: jsonMembers members

/-- Reading one member off an object. -/
theorem jsonMembers_cons {α : Type} {text : α → JsString} (ht : SelfDelimiting text) {a b : α}
    {name : JsString} {m n : JsString × JsString} {ms ns : List (JsString × JsString)}
    (h : jsonMembers ((name, text a) :: m :: ms) = jsonMembers ((name, text b) :: n :: ns)) :
    a = b ∧ jsonMembers (m :: ms) = jsonMembers (n :: ns) := by
  simp only [jsonMembers] at h
  obtain ⟨-, h⟩ := quote_append_inj h
  obtain ⟨hab, hr⟩ := ht a b _ _ _ _ rfl rfl (List.cons.inj h).2
  exact ⟨hab, (List.cons.inj hr).2⟩

theorem jsonMembers_last {α : Type} {text : α → JsString} (ht : SelfDelimiting text) {a b : α}
    {name : JsString} (h : jsonMembers [(name, text a)] = jsonMembers [(name, text b)]) :
    a = b := by
  obtain ⟨-, h⟩ := quote_append_inj h
  exact (ht a b _ _ _ _ rfl rfl (List.cons.inj h).2).1

theorem jsonMembers_getLast (members : List (JsString × JsString)) :
    (jsonMembers members).getLast? = some 0x7D := by
  induction members using jsonMembers.induct with
  | case1 => rfl
  | case2 name text =>
    rw [jsonMembers, ← List.cons_append, ← List.append_assoc]
    exact List.getLast?_concat
  | case3 name text members hne ih => simp [jsonMembers, List.getLast?_cons, ih]

end NewsApi.Text
