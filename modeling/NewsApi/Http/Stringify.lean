import NewsApi.Text.Utf8
import NewsApi.Utils.Coercion

/-! # `JSON.stringify`

Of data: no value has a `toJSON` method. -/
namespace NewsApi.Http
open NewsApi.Text NewsApi.Types NewsApi.Utils

/-- A value that is written as JSON. Members keep their order. -/
inductive JsonValue where
  | undefined
  | null
  | bool (b : Bool)
  | num (n : Rat)
  | str (s : JsString)
  | arr (items : List JsonValue)
  | obj (members : List (JsString × JsonValue))

/-! ## Numbers -/

/-- `n` with `10 ^ (n - 1) ≤ q < 10 ^ n` for a positive number. -/
def digitsBefore (q : Rat) : Int :=
  let guess : Int := ((decimal q.num.toNat).length : Int) - ((decimal q.den).length : Int)
  if power 10 guess ≤ q then guess + 1 else guess

/-- Digits and exponent: `0.d₁d₂… × 10 ^ n`, with `k` digits at first. -/
def roundedDigits (q : Rat) (k : Nat) : Nat × Int :=
  let n := digitsBefore q
  ((nearestInt (q / power 10 (n - k))).toNat, n - k)

/-- The numbers of `k` digits next to `q`, the nearest first. -/
def nextDigits (q : Rat) (k : Nat) : List (Nat × Int) :=
  let (digits, exponent) := roundedDigits q k
  [(digits, exponent), (digits + 1, exponent), (digits - 1, exponent)]

/-- The fewest digits that read back as `q`, at most 17. At a power of two these
need not be the nearest: the doubles below it are closer together. -/
def shortestDigits (q : Rat) : Nat × Int :=
  let reads (digits : Nat × Int) := toDouble ((digits.1 : Rat) * power 10 digits.2) = .finite q
  (((List.range' 1 17).flatMap (nextDigits q)).find? fun digits => reads digits).getD
    (roundedDigits q 17)

def zeros (n : Int) : JsString := List.replicate n.toNat 0x30

/-- The four layouts of `Number::toString`. -/
def layout (digits : JsString) (n : Int) : JsString :=
  let k : Int := digits.length
  if k ≤ n ∧ n ≤ 21 then digits ++ zeros (n - k)
  else if 0 < n ∧ n ≤ 21 then digits.take n.toNat ++ 0x2E :: digits.drop n.toNat
  else if -6 < n ∧ n ≤ 0 then 0x30 :: 0x2E :: (zeros (-n) ++ digits)
  else
    let exponent := (if 0 < n then 0x2B else 0x2D) :: decimal (n - 1).natAbs
    digits.take 1 ++ (if 1 < k then 0x2E :: digits.drop 1 else []) ++ 0x65 :: exponent

/-- `String(n)` of a finite number -/
def numberText (q : Rat) : JsString :=
  if q = 0 then [0x30]
  else
    let (value, exponent) := shortestDigits (if q < 0 then -q else q)
    -- rounding up may leave a power of ten
    let digits := ((decimal value).reverse.dropWhile (· == 0x30)).reverse
    let text := layout digits (exponent + (decimal value).length)
    if q < 0 then 0x2D :: text else text

/-! ## Values -/

def arrayText : List JsString → JsString
  | [] => [0x5D]
  | [text] => text ++ [0x5D]
  | text :: texts => text ++ 0x2C :: arrayText texts

mutual

/-- `none` for `undefined`, which an object leaves out and an array writes as
`null`. -/
def stringify : JsonValue → Option JsString
  | .undefined => none
  | .null => some (js "null")
  | .bool b => some (js (if b then "true" else "false"))
  | .num n => some (numberText n)
  | .str s => some (quote s)
  | .arr items => some (0x5B :: arrayText (stringifyItems items))
  | .obj members => some (jsonObject (stringifyMembers members))

def stringifyItems : List JsonValue → List JsString
  | [] => []
  | item :: items => (stringify item).getD (js "null") :: stringifyItems items

def stringifyMembers : List (JsString × JsonValue) → List (JsString × JsString)
  | [] => []
  | (name, value) :: members =>
    match stringify value with
    | some text => (name, text) :: stringifyMembers members
    | none => stringifyMembers members

end

mutual

/-- A parsed value. What is no finite number is written as `null`. -/
def ofJson : Json → JsonValue
  | .null => .null
  | .bool b => .bool b
  | .num (.finite n) => .num n
  | .num _ => .null
  | .str s => .str s
  | .arr items => .arr (ofJsonItems items)
  | .obj members => .obj (ofJsonMembers members)

def ofJsonItems : List Json → List JsonValue
  | [] => []
  | item :: items => ofJson item :: ofJsonItems items

def ofJsonMembers : List (JsString × Json) → List (JsString × JsonValue)
  | [] => []
  | (name, value) :: members => (name, ofJson value) :: ofJsonMembers members

end

/-! ## No lone surrogates -/

def IsAscii (s : JsString) : Prop := ∀ c ∈ s, c.toNat < 0x80

theorem IsAscii.wellFormed {s : JsString} (h : IsAscii s) : isWellFormed s = true := by
  refine isWellFormed_plain fun c hc => ?_
  have := h c hc
  constructor
  · refine Bool.eq_false_iff.mpr fun hlead => ?_
    have := leading_bounds hlead
    omega
  · refine Bool.eq_false_iff.mpr fun htrail => ?_
    have := trailing_bounds htrail
    omega

theorem IsAscii.append {s t : JsString} (hs : IsAscii s) (ht : IsAscii t) : IsAscii (s ++ t) :=
  fun c hc => (List.mem_append.mp hc).elim (hs c) (ht c)

theorem IsAscii.cons {c : CodeUnit} {s : JsString} (hc : c.toNat < 0x80) (hs : IsAscii s) :
    IsAscii (c :: s) := List.forall_mem_cons.mpr ⟨hc, hs⟩

theorem IsAscii.of_subset {s t : JsString} (ht : IsAscii t) (h : ∀ c ∈ s, c ∈ t) : IsAscii s :=
  fun c hc => ht c (h c hc)

theorem decimal_ascii (n : Nat) : IsAscii (decimal n) := by
  intro c hc
  have := decimal_digits hc
  simp only [isDigit, Bool.and_eq_true, decide_eq_true_eq, UInt16.le_iff_toNat_le] at this
  exact Nat.lt_of_le_of_lt this.2 (by decide)

theorem zeros_ascii (n : Int) : IsAscii (zeros n) := by
  intro c hc
  rw [List.eq_of_mem_replicate hc]
  decide

theorem layout_ascii {digits : JsString} (h : IsAscii digits) (n : Int) :
    IsAscii (layout digits n) := by
  have htake : ∀ k, IsAscii (digits.take k) := fun k => h.of_subset fun c => List.mem_of_mem_take
  have hdrop : ∀ k, IsAscii (digits.drop k) := fun k => h.of_subset fun c => List.mem_of_mem_drop
  have hpoint : (0x2E : CodeUnit).toNat < 0x80 := by decide
  have hexponent : (0x65 : CodeUnit).toNat < 0x80 := by decide
  have hzero : (0x30 : CodeUnit).toNat < 0x80 := by decide
  have hsign : (if 0 < n then 0x2B else 0x2D : CodeUnit).toNat < 0x80 := by
    split <;> decide
  simp only [layout]
  split
  · exact h.append (zeros_ascii _)
  · split
    · exact (htake _).append ((hdrop _).cons hpoint)
    · split
      · exact (((zeros_ascii _).append h).cons hpoint).cons hzero
      · refine ((htake _).append ?_).append (((decimal_ascii _).cons hsign).cons hexponent)
        split
        · exact (hdrop _).cons hpoint
        · nofun

theorem numberText_ascii (q : Rat) : IsAscii (numberText q) := by
  have hdigits : ∀ n, IsAscii ((decimal n).reverse.dropWhile (· == 0x30)).reverse := by
    intro n
    refine (decimal_ascii n).of_subset fun c hc => ?_
    exact List.mem_reverse.mp ((List.dropWhile_sublist _).mem (List.mem_reverse.mp hc))
  unfold numberText
  split
  · exact IsAscii.cons (by decide) nofun
  · dsimp only
    split
    · exact (layout_ascii (hdigits _) _).cons (by decide)
    · exact layout_ascii (hdigits _) _

theorem escapeUnit_wellFormed (c : CodeUnit) : isWellFormed (escapeUnit c) = true := by
  have hhex : ∀ n, n < 16 → (hexDigit n).toNat < 0x80 := by decide
  unfold escapeUnit
  split_ifs with h1 h2 h3 h4 h5 h6 h7 h8
  · decide
  · decide
  · decide
  · decide
  · decide
  · decide
  · decide
  · have := c.toNat_lt
    refine IsAscii.wellFormed (List.forall_mem_cons.mpr ⟨by decide, List.forall_mem_cons.mpr
      ⟨by decide, ?_⟩⟩)
    simp only [List.forall_mem_cons]
    exact ⟨hhex _ (by omega), hhex _ (by omega), hhex _ (by omega), hhex _ (by omega), nofun⟩
  · simp only [Bool.or_eq_true, not_or, Bool.not_eq_true] at h8
    exact isWellFormed_cons h8.1.2 h8.2 rfl

theorem escape_wellFormed (s : JsString) : isWellFormed (escape s) = true := by
  induction s using escape.induct with
  | case1 => rfl
  | case2 c => exact escapeUnit_wellFormed c
  | case3 c d s hp ih =>
    obtain ⟨hc, hd⟩ := Bool.and_eq_true_iff.mp hp
    rw [escape, if_pos hp, isWellFormed, if_pos hc, hd]
    exact ih
  | case4 c d s hp ih =>
    rw [escape, if_neg hp]
    exact isWellFormed_append (escapeUnit_wellFormed c) ih

theorem isWellFormed_unit {c : CodeUnit} {s : JsString} (hc : c.toNat < 0x80)
    (hs : isWellFormed s = true) : isWellFormed (c :: s) = true := by
  have hunit : IsAscii [c] := List.forall_mem_cons.mpr ⟨hc, nofun⟩
  exact isWellFormed_append hunit.wellFormed hs

theorem quote_wellFormed (s : JsString) : isWellFormed (quote s) = true :=
  isWellFormed_unit (by decide) (isWellFormed_append (escape_wellFormed s) (by decide))

theorem jsonMembers_wellFormed {members : List (JsString × JsString)}
    (h : ∀ member ∈ members, isWellFormed member.2 = true) :
    isWellFormed (jsonMembers members) = true := by
  induction members using jsonMembers.induct with
  | case1 => decide
  | case2 name text =>
    rw [jsonMembers]
    exact isWellFormed_append (quote_wellFormed name) (isWellFormed_unit (by decide)
      (isWellFormed_append (h _ List.mem_cons_self) (by decide)))
  | case3 name text members hne ih =>
    rw [jsonMembers]
    · exact isWellFormed_append (quote_wellFormed name) (isWellFormed_unit (by decide)
        (isWellFormed_append (h _ List.mem_cons_self) (isWellFormed_unit (by decide)
          (ih fun member hmem => h member (List.mem_cons_of_mem _ hmem)))))
    · exact hne

theorem arrayText_wellFormed {texts : List JsString}
    (h : ∀ text ∈ texts, isWellFormed text = true) : isWellFormed (arrayText texts) = true := by
  induction texts using arrayText.induct with
  | case1 => decide
  | case2 text => exact isWellFormed_append (h _ List.mem_cons_self) (by decide)
  | case3 text texts hne ih =>
    rw [arrayText]
    · exact isWellFormed_append (h _ List.mem_cons_self) (isWellFormed_unit (by decide)
        (ih fun text hmem => h text (List.mem_cons_of_mem _ hmem)))
    · exact hne

mutual

theorem stringify_wellFormed : ∀ value text, stringify value = some text →
    isWellFormed text = true
  | .undefined, _, h => by cases h
  | .null, _, h => by cases h; decide
  | .bool b, _, h => by cases h; cases b <;> decide
  | .num n, _, h => by cases h; exact (numberText_ascii n).wellFormed
  | .str s, _, h => by cases h; exact quote_wellFormed s
  | .arr items, _, h => by
    cases h
    exact isWellFormed_unit (by decide) (arrayText_wellFormed (stringifyItems_wellFormed items))
  | .obj members, _, h => by
    cases h
    exact isWellFormed_unit (by decide)
      (jsonMembers_wellFormed (stringifyMembers_wellFormed members))

theorem stringifyItems_wellFormed : ∀ items : List JsonValue,
    ∀ text ∈ stringifyItems items, isWellFormed text = true
  | [] => nofun
  | item :: items => by
    refine List.forall_mem_cons.mpr ⟨?_, stringifyItems_wellFormed items⟩
    cases h : stringify item with
    | none => decide
    | some text => exact stringify_wellFormed item text h

theorem stringifyMembers_wellFormed : ∀ members : List (JsString × JsonValue),
    ∀ member ∈ stringifyMembers members, isWellFormed member.2 = true
  | [] => nofun
  | (name, value) :: members => by
    rw [stringifyMembers]
    cases h : stringify value with
    | none => exact stringifyMembers_wellFormed members
    | some text =>
      exact List.forall_mem_cons.mpr
        ⟨stringify_wellFormed value text h, stringifyMembers_wellFormed members⟩

end

end NewsApi.Http
