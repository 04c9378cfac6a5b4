import NewsApi.Http.EntityTagList
import NewsApi.Http.Responses

/-! # Stars in malformed headers

What is no entity tag is skipped up to the next comma, but a star counts as
`*` wherever a list member may begin. -/
namespace NewsApi.Http
open NewsApi.Text NewsApi.Errors

/-! ## List members -/

/-- A list member up to the comma after it: a tag and what follows it, or
something that is no tag. -/
inductive Skipped : JsString → Prop
  | tag (weak : Bool) {text junk : JsString} (h : QuotedRest text) (hcomma : 0x2C ∉ junk) :
      Skipped (weakText weak ++ 0x22 :: (text ++ junk))
  | junk {member : JsString} (hstar : member.head? ≠ some 0x2A)
      (hquote : ∀ weak, ¬weakText weak ++ [0x22] <+: member) (hcomma : 0x2C ∉ member) :
      Skipped member

/-- A list member of `header` begins at the head of `s`. -/
inductive MemberAt (header : JsString) : JsString → Prop
  | first : MemberAt header (skipSeparators header)
  | next {member rest : JsString} (h : MemberAt header (member ++ 0x2C :: rest))
      (hmember : Skipped member) : MemberAt header (skipSeparators rest)

/-- A list member begins with a star. -/
def StrayStar (header : JsString) : Prop := ∃ rest, MemberAt header (0x2A :: rest)

theorem dropWhile_member {member : JsString} (h : 0x2C ∉ member) {tail : JsString}
    (ht : AtComma tail) : (member ++ tail).dropWhile (· != 0x2C) = tail := by
  rw [List.dropWhile_append_of_pos fun c hc => by
    rw [bne_iff_ne]
    rintro rfl
    exact h hc]
  rcases ht with rfl | ⟨rest, rfl⟩ <;> rfl

theorem atComma_dropWhile (s : JsString) : AtComma (s.dropWhile (· != 0x2C)) := by
  cases hs : s.dropWhile (· != 0x2C) with
  | nil => exact .inl rfl
  | cons c rest =>
    have := List.head?_dropWhile_not (· != 0x2C) s
    rw [hs] at this
    simp only [List.head?_cons, bne_eq_false_iff_eq] at this
    exact .inr ⟨rest, by rw [this]⟩

theorem comma_not_mem_takeWhile (s : JsString) : 0x2C ∉ s.takeWhile (· != 0x2C) := by
  intro hmem
  have := List.mem_takeWhile_imp hmem
  simp at this

/-- A prefix without a comma ends before the first comma. -/
theorem prefix_before_comma {start member tail : JsString} (hstart : 0x2C ∉ start)
    (ht : AtComma tail) (h : start <+: member ++ tail) : start <+: member := by
  rcases List.prefix_or_prefix_of_prefix h (List.prefix_append member tail) with hle | ⟨more, rfl⟩
  · exact hle
  · have hmore : more <+: tail := (List.prefix_append_right_inj member).mp h
    cases more with
    | nil => simp
    | cons c more =>
      rcases ht with rfl | ⟨rest, rfl⟩
      · exact absurd (List.prefix_nil.mp hmore) (List.cons_ne_nil c more)
      · obtain ⟨rfl, -⟩ := List.cons_prefix_cons.mp hmore
        exact absurd (List.mem_append_right member List.mem_cons_self) hstart

theorem comma_not_mem_quote (weak : Bool) : 0x2C ∉ weakText weak ++ [0x22] := by
  cases weak <;> decide

/-! ## What the scanner does with a member -/

/-- A header that begins neither with a star nor with a tag. -/
theorem entityTagAt_junk {header : JsString} (hstar : header.head? ≠ some 0x2A)
    (hne : header ≠ []) (hquote : ∀ weak, ¬weakText weak ++ [0x22] <+: header) :
    entityTagAt header = (none, some (header.dropWhile (· != 0x2C))) := by
  obtain ⟨weak, hweak, hheader⟩ := weakPrefix_append_drop header
  rw [entityTagAt_of_ne_star hstar hne]
  have hrest : header.dropWhile (· != 0x2C) =
      (header.drop (weakPrefix header).length).dropWhile (· != 0x2C) := by
    conv => lhs; rw [hheader]
    cases weak <;> rfl
  split
  · rename_i after hafter
    rw [hafter] at hheader
    refine absurd ⟨after, ?_⟩ (hquote weak)
    rw [List.append_assoc]
    exact hheader.symm
  · rw [hrest]

/-- The scanner goes on at the comma after a member. -/
theorem Skipped.entityTagAt {member : JsString} (h : Skipped member) {tail : JsString}
    (ht : AtComma tail) (hne : member ++ tail ≠ []) :
    ∃ tag, entityTagAt (member ++ tail) = (tag, some tail) := by
  cases h with
  | @tag weak text junk hq hcomma =>
    have hat := entityTagAt_quoted weak hq (junk ++ tail)
    rw [dropWhile_member hcomma ht] at hat
    refine ⟨some (weakText weak ++ 0x22 :: text), ?_⟩
    rw [List.append_assoc, List.cons_append, List.append_assoc]
    exact hat
  | junk hstar hquote hcomma =>
    refine ⟨none, ?_⟩
    rw [entityTagAt_junk ?_ hne ?_, dropWhile_member hcomma ht]
    · cases member with
      | nil =>
        rcases ht with rfl | ⟨rest, rfl⟩
        · exact absurd rfl hne
        · exact fun h => absurd (Option.some.inj h) (by decide)
      | cons c member => exact hstar
    · exact fun weak hpre =>
        hquote weak (prefix_before_comma (comma_not_mem_quote weak) ht hpre)

/-- What the scanner passes over without a star is a member. -/
theorem skipped_of_entityTagAt {header rest : JsString} {tag : Option JsString}
    (hstar : header.head? ≠ some 0x2A) (h : entityTagAt header = (tag, some rest)) :
    tag ≠ some [0x2A] ∧ ∃ member, Skipped member ∧ header = member ++ rest ∧ AtComma rest := by
  have hne : header ≠ [] := by
    rintro rfl
    cases h
  by_cases hquote : ∃ weak, weakText weak ++ [0x22] <+: header
  · obtain ⟨weak, after, hheader⟩ := hquote
    obtain rfl : header = weakText weak ++ 0x22 :: after := by
      rw [← hheader, List.append_assoc]
      rfl
    rw [entityTagAt_of_ne_star hstar hne, weakPrefix_weakText, List.drop_left] at h
    cases hread : readOpaque after with
    | none => simp [hread] at h
    | some read =>
      obtain ⟨text, after'⟩ := read
      obtain ⟨rfl, hq⟩ := quotedRest_of_read hread
      simp only [hread, Prod.mk.injEq, Option.some.injEq] at h
      obtain ⟨rfl, rfl⟩ := h
      refine ⟨?_, _, .tag weak hq (comma_not_mem_takeWhile after'), ?_, atComma_dropWhile after'⟩
      · cases weak <;> exact fun h => by cases Option.some.inj h
      · rw [List.append_assoc, List.cons_append, List.append_assoc,
          List.takeWhile_append_dropWhile]
  · have hquote : ∀ weak, ¬weakText weak ++ [0x22] <+: header :=
      fun weak hpre => hquote ⟨weak, hpre⟩
    rw [entityTagAt_junk hstar hne hquote] at h
    cases h
    refine ⟨by simp, header.takeWhile (· != 0x2C), .junk ?_ ?_ (comma_not_mem_takeWhile header),
      List.takeWhile_append_dropWhile.symm, atComma_dropWhile header⟩
    · cases header with
      | nil => exact hstar
      | cons c header =>
        rw [List.takeWhile_cons]
        split
        · exact hstar
        · simp
    · exact fun weak hpre => hquote weak (hpre.trans (List.takeWhile_prefix _))

theorem entityTagAt_none {header : JsString} {tag : Option JsString}
    (hstar : header.head? ≠ some 0x2A) (h : entityTagAt header = (tag, none)) : tag = none := by
  by_cases hne : header = []
  · subst hne
    cases h
    rfl
  · rw [entityTagAt_of_ne_star hstar hne] at h
    split at h
    · split at h
      · cases h
      · cases h
        rfl
    · cases h

/-! ## Stars that are read -/

section
variable {header s : JsString}

theorem skipSeparators_idem (s : JsString) : skipSeparators (skipSeparators s) = skipSeparators s :=
  List.dropWhile_idempotent _ s

theorem MemberAt.skipSeparators (h : MemberAt header s) : skipSeparators s = s := by
  cases h <;> exact skipSeparators_idem _

/-- The members of what follows a member are members. -/
theorem MemberAt.after {member rest : JsString} (h : MemberAt header (member ++ 0x2C :: rest))
    (hmember : Skipped member) (hs : MemberAt (0x2C :: rest) s) : MemberAt header s := by
  induction hs with
  | first =>
    show MemberAt header (Http.skipSeparators rest)
    exact .next h hmember
  | next _ hskipped ih => exact .next ih hskipped

/-- What is read from a member on is read from the header. -/
theorem MemberAt.subset (h : MemberAt header s) : parseEntityTags s ⊆ parseEntityTags header := by
  induction h with
  | first =>
    rw [parseEntityTags_congr (skipSeparators_idem header)]
    exact List.Subset.refl _
  | @next member rest hm hmember ih =>
    obtain ⟨tag, hat⟩ := hmember.entityTagAt (.inr ⟨rest, rfl⟩) (by simp)
    have hread : parseEntityTags (member ++ 0x2C :: rest) = tag.toList ++ parseEntityTags rest := by
      rw [← parseEntityTags_comma rest]
      exact parseEntityTags_go (hm.skipSeparators.symm ▸ hat)
    rw [parseEntityTags_congr (skipSeparators_idem rest)]
    refine List.Subset.trans ?_ ih
    rw [hread]
    exact List.subset_append_right _ _

theorem star_read_iff : [0x2A] ∈ parseEntityTags header ↔ StrayStar header := by
  constructor
  · intro h
    induction header using parseEntityTags.induct with
    | case1 header tag hat =>
      by_cases hstar : (skipSeparators header).head? = some 0x2A
      · obtain ⟨rest, hrest⟩ := List.head?_eq_some_iff.mp hstar
        exact ⟨rest, hrest ▸ .first⟩
      · rw [parseEntityTags_stop hat, entityTagAt_none hstar hat] at h
        cases h
    | case2 header tag rest hat ih =>
      by_cases hstar : (skipSeparators header).head? = some 0x2A
      · obtain ⟨rest', hrest⟩ := List.head?_eq_some_iff.mp hstar
        exact ⟨rest', hrest ▸ .first⟩
      · obtain ⟨htag, member, hmember, hheader, hcomma⟩ := skipped_of_entityTagAt hstar hat
        rw [parseEntityTags_go hat] at h
        have hin : [0x2A] ∈ parseEntityTags rest := by
          refine (List.mem_append.mp h).resolve_left fun hmem => htag ?_
          exact Option.mem_toList.mp hmem
        obtain ⟨rest', hat'⟩ := ih hin
        rcases hcomma with rfl | ⟨after, rfl⟩
        · rw [parseEntityTags_nil] at hin
          cases hin
        · exact ⟨rest', (hheader ▸ MemberAt.first).after hmember hat'⟩
  · rintro ⟨rest, hat⟩
    refine hat.subset ?_
    have hstar : entityTagAt (skipSeparators (0x2A :: rest)) = (some [0x2A], some rest) := rfl
    rw [parseEntityTags_go hstar]
    exact List.mem_cons_self

end

/-! ## Matching without being named -/

/-- The header is `*`, or the opaque part of the tag stands in it. -/
def AsksFor (header currentTag : JsString) : Prop :=
  trim header = js "*" ∨ withoutWeakPrefix currentTag <:+: header

section
variable {header currentTag : JsString}

theorem asksFor_of_match (h : matchesIfNoneMatch (some (.str header)) currentTag = true)
    (hstar : ¬StrayStar header) : AsksFor header currentTag := by
  obtain ⟨tag, htag, hmatch⟩ := (matchesIfNoneMatch_iff _ _).mp h
  have hne : tag ≠ [0x2A] := by
    rintro rfl
    exact hstar (star_read_iff.mp htag)
  have hsame := hmatch.resolve_left hne
  cases mem_parseEntityTags htag with
  | star => exact absurd rfl hne
  | @tag weak text hq hin =>
    rw [withoutWeakPrefix_weakText] at hsame
    refine .inr ?_
    rw [← hsame]
    exact (List.suffix_append _ _).isInfix.trans hin

theorem match_of_strayStar (h : StrayStar header) :
    matchesIfNoneMatch (some (.str header)) currentTag = true :=
  (matchesIfNoneMatch_iff _ _).mpr ⟨[0x2A], star_read_iff.mpr h, .inl rfl⟩

end

/-- A tag longer than the header. -/
def unnamedTag (header : JsString) : JsString :=
  0x22 :: (List.replicate header.length 0x61 ++ [0x22])

theorem not_names_unnamedTag (header : JsString) :
    ¬withoutWeakPrefix (unnamedTag header) <:+: header := by
  intro h
  have hlength := h.length_le
  have hself : withoutWeakPrefix (unnamedTag header) = unnamedTag header := rfl
  rw [hself, unnamedTag, List.length_cons, List.length_append, List.length_replicate,
    List.length_singleton] at hlength
  omega

/-- A header only matches the tags that it asks for, exactly when no list member
begins with a star or the header is `*` itself. Then the same holds of a 304
that the framework does not send by its own test. -/
theorem match_only_if_asked (sha256 : List UInt8 → Digest) (fresh : Request → JsString → Bool)
    (header : JsString) :
    ((∀ currentTag, matchesIfNoneMatch (some (.str header)) currentTag = true →
      AsksFor header currentTag) ↔ (StrayStar header → trim header = js "*")) ∧
    ((StrayStar header → trim header = js "*") →
      ∀ req data members res currentTag, req.ifNoneMatch = some (.str header) →
        fresh req currentTag = false → sendEnvelope sha256 fresh req data members = .ok res →
        res.etag = some currentTag → res.status = 304 → AsksFor header currentTag) := by
  have hmatch : (StrayStar header → trim header = js "*") → ∀ currentTag,
      matchesIfNoneMatch (some (.str header)) currentTag = true → AsksFor header currentTag := by
    intro hcond currentTag hm
    by_cases hstar : StrayStar header
    · exact .inl (hcond hstar)
    · exact asksFor_of_match hm hstar
  refine ⟨⟨fun h hstar => ?_, hmatch⟩, ?_⟩
  · exact (h _ (match_of_strayStar hstar)).resolve_right (not_names_unnamedTag header)
  · intro hcond req data members res currentTag hheader hfresh hres hetag hnotModified
    obtain ⟨text, res', -, -, hok, hetag', hstatus⟩ :=
      @sendEnvelope_ok sha256 fresh req data members
    cases hok.symm.trans hres
    obtain rfl := Option.some.inj (hetag'.symm.trans hetag)
    rw [hstatus, hheader, hfresh, Bool.or_false] at hnotModified
    exact hmatch hcond _ hnotModified

/-- `"other", *` matches a tag that it does not name. -/
theorem stray_star_matches :
    matchesIfNoneMatch (some (.str (js "\"other\", *"))) (js "\"abc\"") = true ∧
    ¬AsksFor (js "\"other\", *") (js "\"abc\"") ∧
    ¬∀ header currentTag, matchesIfNoneMatch (some (.str header)) currentTag = true →
      AsksFor header currentTag := by
  have hfirst : entityTagAt (skipSeparators (js "\"other\", *")) =
      (some (js "\"other\""), some (js ", *")) := rfl
  have hstar : entityTagAt (skipSeparators (js ", *")) = (some (js "*"), some []) := rfl
  have hmatch : matchesIfNoneMatch (some (.str (js "\"other\", *"))) (js "\"abc\"") = true := by
    refine (matchesIfNoneMatch_iff _ _).mpr ⟨js "*", ?_, .inl rfl⟩
    rw [HeaderValue.joined, parseEntityTags_go hfirst, parseEntityTags_go hstar]
    exact List.mem_cons_of_mem _ List.mem_cons_self
  have hasks : ¬AsksFor (js "\"other\", *") (js "\"abc\"") := by
    rintro (h | h)
    · have htrim : (trim (js "\"other\", *")).length = 10 := rfl
      rw [h] at htrim
      exact absurd htrim (by decide)
    · have hletter : (0x61 : CodeUnit) ∈ withoutWeakPrefix (js "\"abc\"") :=
        List.mem_cons_of_mem _ List.mem_cons_self
      have hnone : (js "\"other\", *").all (· != 0x61) = true := rfl
      exact absurd (List.all_eq_true.mp hnone _ (h.subset hletter)) (by decide)
  exact ⟨hmatch, hasks, fun hall => hasks (hall _ _ hmatch)⟩

end NewsApi.Http
