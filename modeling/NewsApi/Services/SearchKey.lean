import NewsApi.Types.Search

/-! # Cache keys

A search is cached under the text of its options; the stale copy has a key of
its own. Equal keys mean equal options, and no stale entry has the key of a
fresh one. -/
namespace NewsApi.Services
open NewsApi.Text NewsApi.Types

/-- `JSON.stringify` of the options, absent filters as `null`. -/
def searchCacheKey (options : ArticleSearchOptions) : JsString :=
  jsonObject [
    (js "query", quote options.query),
    (js "count", decimal options.count),
    (js "page", decimal options.page),
    (js "lang", nullable options.lang),
    (js "country", nullable options.country),
    (js "from", nullable options.from),
    (js "to", nullable options.to),
    (js "sortBy", nullable (options.sortBy.map ArticleSortBy.text))]

def staleCacheKey (cacheKey : JsString) : JsString := cacheKey ++ js ":stale"

theorem searchCacheKey_injective {o p : ArticleSearchOptions}
    (h : searchCacheKey o = searchCacheKey p) : o = p := by
  obtain ⟨hquery, h⟩ := jsonMembers_cons quote_selfDelimiting (List.cons.inj h).2
  obtain ⟨hcount, h⟩ := jsonMembers_cons decimal_selfDelimiting h
  obtain ⟨hpage, h⟩ := jsonMembers_cons decimal_selfDelimiting h
  obtain ⟨hlang, h⟩ := jsonMembers_cons nullable_selfDelimiting h
  obtain ⟨hcountry, h⟩ := jsonMembers_cons nullable_selfDelimiting h
  obtain ⟨hfrom, h⟩ := jsonMembers_cons nullable_selfDelimiting h
  obtain ⟨hto, h⟩ := jsonMembers_cons nullable_selfDelimiting h
  have hsort := Option.map_injective (fun _ _ => ArticleSortBy.text_injective)
    (jsonMembers_last nullable_selfDelimiting h)
  cases o; cases p
  simp_all

theorem staleCacheKey_injective {k l : JsString} (h : staleCacheKey k = staleCacheKey l) : k = l :=
  List.append_cancel_right h

/-- No stale entry has the key of a fresh one. -/
theorem staleCacheKey_ne (k : JsString) (o : ArticleSearchOptions) :
    staleCacheKey k ≠ searchCacheKey o := by
  intro h
  have hlast := congrArg List.getLast? h
  rw [searchCacheKey, jsonObject, List.getLast?_cons, jsonMembers_getLast] at hlast
  rw [staleCacheKey, List.getLast?_append, show (js ":stale").getLast? = some 0x65 from rfl]
    at hlast
  exact absurd (Option.some.inj hlast) (by decide)

/-- The keys of entries begin with a brace. -/
theorem searchCacheKey_ne_of_head {k : JsString} {c : CodeUnit} (hk : k.head? = some c)
    (hc : c ≠ 0x7B) (o : ArticleSearchOptions) :
    searchCacheKey o ≠ k ∧ staleCacheKey (searchCacheKey o) ≠ k :=
  ⟨fun h => hc (Option.some.inj (hk.symm.trans (congrArg List.head? h.symm))),
    fun h => hc (Option.some.inj (hk.symm.trans (congrArg List.head? h.symm)))⟩

end NewsApi.Services
