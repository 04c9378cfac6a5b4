import Mathlib.Data.List.TakeWhile
import NewsApi.Text.PercentEncoding
import NewsApi.Utils.Validation

/-! # URLs

How the URL standard reads an absolute `http` or `https` URL, and the request
target that is sent for it. -/
namespace NewsApi.Http
open Text Utils

/-- `path` is kept without dot segments. -/
structure Url where
  scheme : JsString
  authority : JsString
  path : List JsString
  query : Option JsString
deriving DecidableEq, Repr

def isSlash (c : CodeUnit) : Bool := c == 0x2F || c == 0x5C

/-- `?` and `#` -/
def endsPath (c : CodeUnit) : Bool := c == 0x3F || c == 0x23

def endsAuthority (c : CodeUnit) : Bool := isSlash c || endsPath c

/-- Neither controls and spaces around a URL nor line breaks in it are part of it. -/
def cleaned (text : JsString) : JsString :=
  let isBlank := fun c : CodeUnit => c ≤ 0x20
  (((text.dropWhile isBlank).reverse.dropWhile isBlank).reverse).filter
    fun c => !(c == 0x09 || c == 0x0A || c == 0x0D)

def readScheme (s : JsString) : Option (JsString × JsString) :=
  let scheme := toLowerCase (s.takeWhile (· != 0x3A))
  if scheme = js "http" ∨ scheme = js "https" then some (scheme, s.drop (scheme.length + 1))
  else none

/-! ## Paths -/

/-- What a path and a query both write with escapes. -/
def isEscapedInQuery (c : CodeUnit) : Bool :=
  c ≤ 0x20 || 0x7E < c || c == 0x22 || c == 0x23 || c == 0x3C || c == 0x3E

def isEscapedInPath (c : CodeUnit) : Bool :=
  isEscapedInQuery c || c == 0x3F || c == 0x60 || c == 0x7B || c == 0x7D

def copyInPath (c : CodeUnit) : Option CodeUnit := if isEscapedInPath c then none else some c

def copyInQuery (c : CodeUnit) : Option CodeUnit :=
  if isEscapedInQuery c || c == 0x27 then none else some c

/-- A dot, which may be written `%2e`. -/
def readDot : JsString → Option JsString
  | 0x2E :: rest => some rest
  | 0x25 :: 0x32 :: e :: rest => if e = 0x45 ∨ e = 0x65 then some rest else none
  | _ => none

def isSingleDot (segment : JsString) : Bool := readDot segment == some []

def isDoubleDot (segment : JsString) : Bool := (readDot segment).bind readDot == some []

/-- Add one segment, or follow it when it is a dot segment. The last one leaves
a name behind in any case. -/
def enter (path : List JsString) (segment : JsString) (last : Bool) : List JsString :=
  if isDoubleDot segment then path.dropLast ++ (if last then [[]] else [])
  else if isSingleDot segment then path ++ (if last then [[]] else [])
  else path ++ [percentEncode copyInPath segment]

def walk (path : List JsString) : List JsString → List JsString
  | [] => path
  | segment :: rest => walk (enter path segment rest.isEmpty) rest

def readPath (s : JsString) : List JsString := walk [] ((s.drop 1).splitOnP isSlash)

def readQuery : JsString → Option JsString
  | 0x3F :: rest => some (percentEncode copyInQuery (rest.takeWhile (· != 0x23)))
  | _ => none

/-- `authorityOf` reads user, host and port. -/
def readUrl (authorityOf : JsString → JsString → Option JsString) (text : JsString) :
    Option Url :=
  (readScheme (cleaned text)).bind fun (scheme, rest) =>
    let rest := rest.dropWhile isSlash
    let named := rest.takeWhile fun c => !endsAuthority c
    let rest := rest.drop named.length
    (authorityOf scheme named).map fun authority => {
      scheme, authority
      path := readPath (rest.takeWhile fun c => !endsPath c)
      query := readQuery (rest.dropWhile fun c => !endsPath c) }

/-! ## Requests -/

/-- Segments each after a slash. -/
def slashed (segments : List JsString) : JsString := segments.flatMap (0x2F :: ·)

def Url.pathname (url : Url) : JsString := slashed url.path

/-- The first line of a request names this. -/
def Url.target (url : Url) : JsString :=
  url.pathname ++ (match url.query with
    | some query => 0x3F :: query
    | none => [])

/-- The path of a request target, at its slashes. -/
def targetPath (target : JsString) : List JsString :=
  ((target.takeWhile (· != 0x3F)).drop 1).splitOn 0x2F

/-! ## Dot segments -/

theorem decode_readDot {s rest : JsString} (h : readDot s = some rest) :
    decodeURIComponent s = (decodeURIComponent rest).map (0x2E :: ·) := by
  unfold readDot at h
  split at h
  · cases h
    exact decode_plain (by decide) rest
  · split at h
    · rename_i heq
      cases h
      obtain rfl | rfl := heq
      · exact decode_escapes (n := 0x2E) rfl
      · exact decode_escapes (n := 0x2E) rfl
    · cases h
  · cases h

theorem decode_singleDot {s : JsString} (h : isSingleDot s = true) :
    decodeURIComponent s = some (js ".") := by
  rw [decode_readDot (eq_of_beq h), decodeURIComponent]
  rfl

theorem decode_doubleDot {s : JsString} (h : isDoubleDot s = true) :
    decodeURIComponent s = some (js "..") := by
  obtain ⟨rest, hfirst, hsecond⟩ := Option.bind_eq_some_iff.mp (eq_of_beq h)
  rw [decode_readDot hfirst, decode_readDot hsecond, decodeURIComponent]
  rfl

/-! ## Segments that a URL keeps as they are -/

theorem percentOrUnreserved_ascii {c : CodeUnit} (h : isPercentOrUnreserved c = true) :
    c.toNat < 0x80 := by
  simp only [isPercentOrUnreserved, isUnreserved, isAsciiAlphanumeric, isDigit, Bool.or_eq_true,
    Bool.and_eq_true, decide_eq_true_eq, beq_iff_eq, UInt16.le_iff_toNat_le,
    List.contains_iff_mem] at h
  have hmarks : (js "-_.!~*'()").all (fun d => d.toNat < 0x80) = true := by decide
  rcases h with rfl | ((⟨-, h⟩ | ⟨-, h⟩) | ⟨-, h⟩) | h
  · decide
  · exact Nat.lt_of_le_of_lt h (by decide)
  · exact Nat.lt_of_le_of_lt h (by decide)
  · exact Nat.lt_of_le_of_lt h (by decide)
  · simpa using List.all_eq_true.mp hmarks c h

/-- A check of the characters that an encoding consists of. -/
theorem percentOrUnreserved_check {P : CodeUnit → Bool}
    (hall : ∀ n : Fin 0x80, (!isPercentOrUnreserved (UInt16.ofNat n) || P (UInt16.ofNat n)) = true)
    {c : CodeUnit} (h : isPercentOrUnreserved c = true) : P c = true := by
  have hc := hall ⟨c.toNat, percentOrUnreserved_ascii h⟩
  simpa [h] using hc

def IsPlain (segment : JsString) : Prop := ∀ c ∈ segment, isPercentOrUnreserved c = true

instance (segment : JsString) : Decidable (IsPlain segment) :=
  decidable_of_iff (segment.all isPercentOrUnreserved = true) List.all_eq_true

theorem percentUnit_plain {c : CodeUnit} (h : isPercentOrUnreserved c = true) :
    percentUnit copyInPath c = [c] := by
  have hpath : (!isEscapedInPath c) = true :=
    percentOrUnreserved_check (P := fun c => !isEscapedInPath c) (by decide +kernel) h
  rw [percentUnit, copyInPath, if_neg (by simpa using hpath)]

theorem percentEncode_plain {s : JsString} (h : IsPlain s) : percentEncode copyInPath s = s := by
  induction s using percentEncode.induct with
  | case1 => rfl
  | case2 c => exact percentUnit_plain (h c List.mem_cons_self)
  | case3 c d rest hpair =>
    have hlow := percentOrUnreserved_ascii (h c List.mem_cons_self)
    have hhigh := (leading_bounds (Bool.and_eq_true_iff.mp hpair).1).1
    omega
  | case4 c d rest hpair ih =>
    rw [percentEncode, if_neg hpair, percentUnit_plain (h c List.mem_cons_self),
      ih fun x hx => h x (List.mem_cons_of_mem c hx)]
    rfl

/-- A segment that is a name, and not a step to another one. -/
structure IsName (segment : JsString) : Prop where
  plain : IsPlain segment
  notDot : isSingleDot segment = false
  notDots : isDoubleDot segment = false

instance (segment : JsString) : Decidable (IsName segment) :=
  decidable_of_iff (IsPlain segment ∧ isSingleDot segment = false ∧ isDoubleDot segment = false)
    ⟨fun ⟨h, hdot, hdots⟩ => ⟨h, hdot, hdots⟩, fun ⟨h, hdot, hdots⟩ => ⟨h, hdot, hdots⟩⟩

theorem enter_name {segment : JsString} (h : IsName segment) (path : List JsString) (last : Bool) :
    enter path segment last = path ++ [segment] := by
  simp [enter, h.notDot, h.notDots, percentEncode_plain h.plain]

theorem walk_names {segments : List JsString} (h : ∀ s ∈ segments, IsName s)
    (path : List JsString) : walk path segments = path ++ segments := by
  induction segments generalizing path with
  | nil => simp [walk]
  | cons segment rest ih =>
    rw [walk, enter_name (h segment List.mem_cons_self),
      ih fun s hs => h s (List.mem_cons_of_mem segment hs)]
    simp

theorem splitOnP_slashed {P : CodeUnit → Bool} (hslash : P 0x2F = true) {segments : List JsString}
    (hne : segments ≠ []) (h : ∀ s ∈ segments, ∀ c ∈ s, P c = false) :
    ((slashed segments).drop 1).splitOnP P = segments := by
  induction segments with
  | nil => exact absurd rfl hne
  | cons segment rest ih =>
    have hsegment := h segment List.mem_cons_self
    cases rest with
    | nil => simpa [slashed] using List.splitOnP_eq_singleton hsegment
    | cons next rest =>
      have hrest := ih (List.cons_ne_nil _ _) fun s hs => h s (List.mem_cons_of_mem segment hs)
      simp only [slashed, List.flatMap_cons, List.cons_append, List.drop_succ_cons,
        List.drop_zero] at hrest ⊢
      rw [List.splitOnP_append_cons_of_forall_mem hsegment _ hslash, hrest]

theorem plain_check {P : CodeUnit → Bool}
    (hall : ∀ n : Fin 0x80, (!isPercentOrUnreserved (UInt16.ofNat n) || P (UInt16.ofNat n)) = true)
    {segments : List JsString} (h : ∀ s ∈ segments, IsPlain s) :
    ∀ s ∈ segments, ∀ c ∈ s, P c = true :=
  fun s hs c hc => percentOrUnreserved_check hall (h s hs c hc)

theorem slashed_check {P : CodeUnit → Bool} (hslash : P 0x2F = true)
    (hall : ∀ n : Fin 0x80, (!isPercentOrUnreserved (UInt16.ofNat n) || P (UInt16.ofNat n)) = true)
    {segments : List JsString} (h : ∀ s ∈ segments, IsPlain s) {c : CodeUnit}
    (hc : c ∈ slashed segments) : P c = true := by
  obtain ⟨s, hs, hc⟩ := List.mem_flatMap.mp hc
  rcases List.mem_cons.mp hc with rfl | hc
  · exact hslash
  · exact plain_check hall h s hs c hc

theorem enter_plain {path : List JsString} {segment : JsString} (hpath : ∀ s ∈ path, IsPlain s)
    (hsegment : IsPlain segment) (last : Bool) : ∀ s ∈ enter path segment last, IsPlain s := by
  have hempty : ∀ s ∈ (if last then [[]] else []), IsPlain s := by
    cases last <;> simp [IsPlain]
  unfold enter
  split
  · exact List.forall_mem_append.mpr ⟨fun s hs => hpath s (List.dropLast_subset path hs), hempty⟩
  · split
    · exact List.forall_mem_append.mpr ⟨hpath, hempty⟩
    · rw [percentEncode_plain hsegment]
      exact List.forall_mem_append.mpr ⟨hpath, List.forall_mem_singleton.mpr hsegment⟩

theorem walk_plain {path segments : List JsString} (hpath : ∀ s ∈ path, IsPlain s)
    (h : ∀ s ∈ segments, IsPlain s) : ∀ s ∈ walk path segments, IsPlain s := by
  induction segments generalizing path with
  | nil => exact hpath
  | cons segment rest ih =>
    exact ih (enter_plain hpath (h segment List.mem_cons_self) _)
      fun s hs => h s (List.mem_cons_of_mem segment hs)

/-- The last segment always leaves one behind. -/
theorem walk_ne_nil {segments : List JsString} (hne : segments ≠ []) (path : List JsString) :
    walk path segments ≠ [] := by
  induction segments generalizing path with
  | nil => exact absurd rfl hne
  | cons segment rest ih =>
    cases rest with
    | nil =>
      simp only [walk, enter, List.isEmpty_nil, if_true]
      split_ifs <;> simp
    | cons next rest => exact ih (List.cons_ne_nil _ _) _

theorem readPath_slashed {segments : List JsString} (hne : segments ≠ [])
    (h : ∀ s ∈ segments, IsPlain s) : readPath (slashed segments) = walk [] segments := by
  have hno : ∀ s ∈ segments, ∀ c ∈ s, (!isSlash c) = true := plain_check (by decide +kernel) h
  rw [readPath, splitOnP_slashed rfl hne fun s hs c hc => by simpa using hno s hs c hc]

/-- The server sees the segments of the URL. -/
theorem targetPath_target {url : Url} (hne : url.path ≠ [])
    (h : ∀ s ∈ url.path, IsPlain s) : targetPath url.target = url.path := by
  have hmark : ∀ c ∈ url.pathname, (c != 0x3F) = true :=
    fun c hc => slashed_check (P := (· != 0x3F)) (by decide) (by decide +kernel) h hc
  have hno : ∀ s ∈ url.path, ∀ c ∈ s, (c != 0x2F) = true := plain_check (by decide +kernel) h
  have hpath : (url.target.takeWhile (· != 0x3F)) = url.pathname := by
    rw [Url.target, List.takeWhile_append_of_pos hmark]
    cases url.query with
    | none => simp
    | some query => simp
  rw [targetPath, hpath, List.splitOn_eq_splitOnP]
  exact splitOnP_slashed rfl hne fun s hs c hc => by simpa using hno s hs c hc

/-! ## A path at an origin -/

theorem dropWhile_visible {s : JsString} (h : ∀ c ∈ s, 0x20 < c) :
    s.dropWhile (fun c => c ≤ 0x20) = s := by
  cases s with
  | nil => rfl
  | cons c s => simp [h c List.mem_cons_self]

theorem cleaned_visible {text : JsString} (h : ∀ c ∈ text, 0x20 < c) : cleaned text = text := by
  have hreverse : ∀ c ∈ text.reverse, 0x20 < c := fun c hc => h c (List.mem_reverse.mp hc)
  simp only [cleaned, dropWhile_visible h, dropWhile_visible hreverse, List.reverse_reverse]
  refine List.filter_eq_self.mpr fun c hc => ?_
  have hvisible := h c hc
  simp only [Bool.not_eq_true', Bool.or_eq_false_iff, beq_eq_false_iff_ne]
  refine ⟨⟨?_, ?_⟩, ?_⟩
  · rintro rfl
    exact absurd hvisible (by decide)
  · rintro rfl
    exact absurd hvisible (by decide)
  · rintro rfl
    exact absurd hvisible (by decide)

/-- `http://host` -/
structure Origin where
  scheme : JsString
  authority : JsString
  isHttp : scheme = js "http" ∨ scheme = js "https"
  named : authority ≠ []
  bare : ∀ c ∈ authority, 0x20 < c ∧ endsAuthority c = false

def Origin.text (origin : Origin) : JsString := origin.scheme ++ js "://" ++ origin.authority

theorem readScheme_origin {scheme : JsString} (h : scheme = js "http" ∨ scheme = js "https")
    (rest : JsString) :
    readScheme (scheme ++ js "://" ++ rest) = some (scheme, js "//" ++ rest) := by
  rcases h with rfl | rfl
  · rfl
  · rfl

theorem origin_visible {origin : Origin} {segments : List JsString}
    (h : ∀ s ∈ segments, IsPlain s) : ∀ c ∈ origin.text ++ slashed segments, 0x20 < c := by
  have hscheme : origin.scheme.all (fun c => 0x20 < c) = true := by
    rcases origin.isHttp with hs | hs
    · rw [hs]
      decide
    · rw [hs]
      decide
  have hslashes : (js "://").all (fun c => 0x20 < c) = true := by decide
  intro c hc
  simp only [Origin.text, List.mem_append] at hc
  rcases hc with ((hc | hc) | hc) | hc
  · simpa using List.all_eq_true.mp hscheme c hc
  · simpa using List.all_eq_true.mp hslashes c hc
  · exact (origin.bare c hc).1
  · have hlow := slashed_check (P := fun c => 0x20 < c) (by decide) (by decide +kernel) h hc
    simpa using hlow

theorem readUrl_origin (authorityOf : JsString → JsString → Option JsString) (origin : Origin)
    {segments : List JsString} (hne : segments ≠ []) (h : ∀ s ∈ segments, IsPlain s) :
    readUrl authorityOf (origin.text ++ slashed segments) =
      (authorityOf origin.scheme origin.authority).map fun authority =>
        { scheme := origin.scheme, authority, path := walk [] segments, query := none } := by
  obtain ⟨first, others, rfl⟩ := List.exists_cons_of_ne_nil hne
  have hslashed : slashed (first :: others) = 0x2F :: (first ++ slashed others) := rfl
  have hauthority : ∀ c ∈ origin.authority, (!endsAuthority c) = true :=
    fun c hc => by simp [(origin.bare c hc).2]
  have hpath : ∀ c ∈ slashed (first :: others), (!endsPath c) = true :=
    fun c hc => slashed_check (P := fun c => !endsPath c) (by decide) (by decide +kernel) h hc
  have hslashes : (js "//" ++ (origin.authority ++ slashed (first :: others))).dropWhile isSlash =
      origin.authority ++ slashed (first :: others) := by
    obtain ⟨c, rest, hcons⟩ := List.exists_cons_of_ne_nil origin.named
    have hbare := origin.bare c (by simp [hcons])
    have hslash : isSlash c = false := (Bool.or_eq_false_iff.mp hbare.2).1
    rw [hcons, List.dropWhile_append_of_pos (List.all_eq_true.mp rfl), List.cons_append,
      List.dropWhile_cons_of_neg (by simp [hslash])]
  have hnamed : (origin.authority ++ slashed (first :: others)).takeWhile
      (fun c => !endsAuthority c) = origin.authority := by
    rw [List.takeWhile_append_of_pos hauthority, hslashed]
    simp [endsAuthority, isSlash]
  rw [readUrl, cleaned_visible (origin_visible h), Origin.text, List.append_assoc,
    readScheme_origin origin.isHttp]
  simp only [Option.bind_some, hslashes, hnamed, List.drop_left,
    List.takeWhile_eq_self_iff.mpr hpath, List.dropWhile_eq_nil_iff.mpr hpath,
    readPath_slashed hne h]
  rfl

end NewsApi.Http
