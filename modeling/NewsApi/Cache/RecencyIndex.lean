import Mathlib.Data.List.Perm.Subperm
import NewsApi.Cache.StoreHistory

/-! # The order of use against what is held

The cache library drops expired entries on its own, and the store is not told:
their keys stay in the order until something is done with them. -/
namespace NewsApi.Cache.RecencyIndex
open NewsApi.Text NewsApi.Collections NewsApi.Async NewsApi.Cache.MemoryStore
open NewsApi.Cache.StoreHistory

variable {α : Type} {maxKeys : Nat} {p p' : Process α}

/-- How many entries were removed to make room. -/
def removals : List (Record α) → Nat
  | [] => 0
  | r :: older => r.evicted.length + removals older

structure Exact (maxKeys : Nat) (p : Process α) : Prop where
  keys : ∀ key, key ∈ p.store.recency ↔ key ∈ p.store.cache.entries
  bounded : p.store.recency.keys.length ≤ maxKeys
  evictions : p.store.evictionsTotal = removals p.history

/-- The periodic check finds an expired entry. -/
def Sweeps (p : Process α) (op : Op α) : Prop :=
  op = .checkData ∧ ∃ key e, p.store.cache.entries.lookup key = some e ∧ e.expired p.now = true

theorem removals_next {op : Op α} {found : Option α} {evicted : List JsString}
    {store : MemoryStore α} : removals (p.next op found evicted store).history =
      evicted.length + removals p.history := rfl

theorem exact_of_keys (h : Consistent maxKeys p)
    (hkeys : ∀ key, key ∈ p.store.recency ↔ key ∈ p.store.cache.entries)
    (hevictions : p.store.evictionsTotal = removals p.history) : Exact maxKeys p where
  keys := hkeys
  bounded := by
    have hsub : p.store.recency.keys ⊆ p.store.cache.entries.keys := fun key hkey =>
      AList.mem_keys.mp ((hkeys key).mp hkey)
    exact (List.subperm_of_subset p.store.recency.nodup hsub).length_le.trans h.bounded
  evictions := hevictions

theorem mem_check {now : Nat} {key j : JsString} {c : NodeCache α} :
    j ∈ (c.check now key).2.entries ↔
      j ∈ c.entries ∧ (j = key → (c.get now key).1.isSome = true) := by
  rw [← AList.lookup_isSome, ← AList.lookup_isSome, NodeCache.lookup_check, NodeCache.get_fst]
  split
  · rename_i hj
    rw [hj]
    cases c.entries.lookup key with
    | none => simp
    | some e => cases hexp : e.expired now <;> simp [Option.filter_some, hexp]
  · rename_i hj
    simp [hj]

theorem get_keys (h : Exact maxKeys p) (key j : JsString) :
    j ∈ (p.store.get p.now key).2.recency ↔ j ∈ (p.store.get p.now key).2.cache.entries := by
  cases hfound : (p.store.cache.get p.now key).1 with
  | none =>
    rw [get_miss hfound]
    rw [KeyOrder.mem_delete, h.keys j, mem_check, hfound]
    simp [and_comm]
  | some v =>
    have hheld : key ∈ p.store.cache.entries := by
      rw [NodeCache.get_fst] at hfound
      obtain ⟨e, he, hv⟩ := Option.map_eq_some_iff.mp hfound
      exact NodeCache.mem_of_lookup (Option.filter_eq_some_iff.mp he).1
    rw [get_hit hfound]
    rw [KeyOrder.mem_touch, h.keys j, mem_check, hfound]
    by_cases hj : j = key <;> simp [hj, hheld]

/-- Nothing in an exact order is passed over, so what is evicted is counted. -/
theorem room_exact {key : JsString} {roomy : MemoryStore α} {evicted : List JsString}
    (h : Exact maxKeys p) (hroom : RoomFor key p.store evicted roomy) :
    (∀ j, j ∈ roomy.recency ↔ j ∈ roomy.cache.entries) ∧
      roomy.evictionsTotal = p.store.evictionsTotal + evicted.length := by
  cases hroom with
  | room hroom =>
    refine ⟨fun j => ?_, rfl⟩
    rw [show (p.store.delete key).recency = p.store.recency.delete key from rfl,
      show (p.store.delete key).cache = p.store.cache.del key from rfl,
      KeyOrder.mem_delete, NodeCache.mem_del, h.keys j]
  | @evicted before after victim order hkey hfull horder hbefore hvictim hafter =>
    have hnil : before = [] := by
      cases before with
      | nil => rfl
      | cons k rest =>
        have hk : k ∈ p.store.recency.delete key := by
          rw [KeyOrder.mem_keys, horder]
          exact List.mem_cons_self
        exact absurd ((h.keys k).mp (KeyOrder.mem_delete.mp hk).2)
          (hbefore k List.mem_cons_self)
    rw [hnil, List.nil_append] at horder
    refine ⟨fun j => ?_, by rw [hnil]; rfl⟩
    have horder' : order.keys = ((p.store.recency.delete key).delete victim).keys := by
      rw [KeyOrder.delete_head horder, hafter]
    show j ∈ order.keys ↔ j ∈ (p.store.cache.del victim).entries
    rw [horder', ← KeyOrder.mem_keys, KeyOrder.mem_delete, KeyOrder.mem_delete, NodeCache.mem_del,
      h.keys j]
    refine and_congr_right fun hne => and_iff_right_of_imp fun hheld hjk => ?_
    exact hkey (hjk ▸ hheld)

theorem hold_keys {key : JsString} {roomy : MemoryStore α} (e : WrappedValue α)
    (h : ∀ j, j ∈ roomy.recency ↔ j ∈ roomy.cache.entries) (j : JsString) :
    j ∈ (roomy.hold key e).recency ↔ j ∈ (roomy.hold key e).cache.entries := by
  show j ∈ roomy.recency.touch key ↔ j ∈ roomy.cache.entries.insert key e
  rw [KeyOrder.mem_touch, AList.mem_insert, h j]

theorem get_evictionsTotal (now : Nat) (key : JsString) (s : MemoryStore α) :
    (s.get now key).2.evictionsTotal = s.evictionsTotal := by
  cases h : (s.cache.get now key).1 with
  | none => rw [get_miss h]
  | some v => rw [get_hit h]

/-- A periodic check that finds nothing expired removes nothing. -/
theorem mem_checkData (h : ¬Sweeps p .checkData) (j : JsString) :
    j ∈ (p.store.cache.checkData p.now).entries ↔ j ∈ p.store.cache.entries := by
  rw [← AList.lookup_isSome, ← AList.lookup_isSome, NodeCache.lookup_checkData]
  cases he : p.store.cache.entries.lookup j with
  | none => rfl
  | some e =>
    cases hexp : e.expired p.now with
    | false => simp [Option.filter_some, hexp]
    | true => exact absurd ⟨rfl, j, e, he, hexp⟩ h

theorem exact_step (hpos : 0 < maxKeys) (hc : Consistent maxKeys p) (h : Exact maxKeys p)
    {op : Op α} (hop : ¬Sweeps p op) (hstep : step p op = some p') : Exact maxKeys p' := by
  have hc' : Consistent maxKeys p' := by
    obtain ⟨q, hq, hcq⟩ := hc.goes_on hpos op
    rw [hstep] at hq
    exact Option.some.inj hq ▸ hcq
  cases op with
  | get key =>
    cases hstep
    refine exact_of_keys hc' (get_keys h key) ?_
    rw [removals_next]
    exact (get_evictionsTotal p.now key p.store).trans (h.evictions.trans (Nat.zero_add _).symm)
  | set key value ttlSec =>
    obtain ⟨store, hset, rfl⟩ : ∃ store, p.store.set p.now key value ttlSec = .ok store ∧
        p.next (.set key value ttlSec) none (p.lost key store) store = p' := by
      obtain ⟨store, hstore, hnext⟩ := Option.map_eq_some_iff.mp hstep
      refine ⟨store, ?_, hnext⟩
      cases hset : p.store.set p.now key value ttlSec with
      | ok store' =>
        rw [hset] at hstore
        exact congrArg Except.ok (Option.some.inj hstore)
      | error full =>
        rw [hset] at hstore
        cases hstore
    obtain ⟨evicted, roomy, hroom, hspec⟩ :=
      set_spec p.now key hc.tracked (hc.sized hpos) value ttlSec
    rw [hspec] at hset
    obtain rfl := Except.ok.inj hset
    obtain ⟨hkeys, htotal⟩ := room_exact h hroom
    refine exact_of_keys hc' (hold_keys _ hkeys) ?_
    rw [removals_next, lost_eq hroom, ← h.evictions, Nat.add_comm]
    exact htotal
  | delete key =>
    cases hstep
    refine exact_of_keys hc' (fun j => ?_) (h.evictions.trans (Nat.zero_add _).symm)
    show j ∈ p.store.recency.delete key ↔ j ∈ (p.store.cache.del key).entries
    rw [KeyOrder.mem_delete, NodeCache.mem_del, h.keys j]
  | advance ms =>
    cases hstep
    exact exact_of_keys hc' h.keys (h.evictions.trans (Nat.zero_add _).symm)
  | checkData =>
    cases hstep
    exact exact_of_keys hc' (fun j => (h.keys j).trans (mem_checkData hop j).symm)
      (h.evictions.trans (Nat.zero_add _).symm)

/-- A swept entry leaves its key behind. -/
theorem not_exact_of_sweeps (h : Exact maxKeys p) {op : Op α} (hop : Sweeps p op) :
    ∃ p', step p op = some p' ∧ ¬Exact maxKeys p' := by
  obtain ⟨rfl, key, e, he, hexp⟩ := hop
  refine ⟨_, rfl, fun hexact => ?_⟩
  have hheld : key ∈ (p.store.cache.checkData p.now).entries :=
    (hexact.keys key).mp ((h.keys key).mpr (NodeCache.mem_of_lookup he))
  rw [← AList.lookup_isSome, NodeCache.lookup_checkData, he] at hheld
  simp [Option.filter_some, hexp] at hheld

theorem start_exact (maxKeys now : Nat) : Exact maxKeys (start α maxKeys now) where
  keys := fun key => iff_of_false List.not_mem_nil (AList.notMem_empty key)
  bounded := Nat.zero_le maxKeys
  evictions := rfl

/-- The order of use is exactly what is held, at every moment of a run, if and
only if no periodic check of the run finds an expired entry. -/
theorem exact_unless_swept {maxKeys : Nat} (hpos : 0 < maxKeys) (now : Nat) (ops : List (Op α)) :
    (∀ before after p, ops = before ++ after → run step (start α maxKeys now) before = some p →
      Exact maxKeys p) ↔
    ∀ before op after p, ops = before ++ op :: after →
      run step (start α maxKeys now) before = some p → ¬Sweeps p op := by
  constructor
  · intro hexact before op after p hops hrun hsweeps
    obtain ⟨p', hstep, hnot⟩ :=
      not_exact_of_sweeps (hexact before (op :: after) p hops hrun) hsweeps
    refine hnot (hexact (before ++ [op]) after p' (by simp [hops]) ?_)
    rw [run_append, hrun, Option.bind_some, run, hstep]
    rfl
  · intro hnone before after p hops hrun
    refine (run_invariant_where (P := fun p => Consistent maxKeys p ∧ Exact maxKeys p)
      (Q := fun p op => ¬Sweeps p op) ?_ ⟨start_consistent maxKeys now, start_exact maxKeys now⟩
      ?_ hrun).2
    · intro p op p' hp hop hstep
      obtain ⟨q, hq, hcq⟩ := hp.1.goes_on hpos op
      rw [hstep] at hq
      exact ⟨Option.some.inj hq ▸ hcq, exact_step hpos hp.1 hp.2 hop hstep⟩
    · intro before' op after' q hbefore hq
      exact hnone before' op (after' ++ after) q (by simp [hops, hbefore]) hq

theorem exact_unless_swept_never :
    (∀ before after p, [.set (js "a") 1 none, .delete (js "a")] = before ++ after →
      run step (start Nat 1 0) before = some p → Exact 1 p) ↔
    ∀ before op after p, [.set (js "a") 1 none, .delete (js "a")] = before ++ op :: after →
      run step (start Nat 1 0) before = some p → ¬Sweeps p op :=
  exact_unless_swept (by decide) 0 _

/-! ## A run of a store of one key -/

/-- The only entry expires and is swept; two more keys follow. -/
def sweptRun : List (Op Nat) :=
  [.set (js "a") 1 (some 1), .advance 2000, .checkData, .set (js "b") 2 none,
    .set (js "c") 3 none]

def afterSweep : Process Nat :=
  let p := start Nat 1 0
  let p := p.next (.set (js "a") 1 (some 1)) none [] (p.store.hold (js "a") ⟨1, some 1000⟩)
  let p := { p.next (.advance 2000) none [] p.store with now := p.now + 2000 }
  p.next .checkData none [] { p.store with cache := { maxKeys := 1, entries := ∅ } }

theorem run_afterSweep : run step (start Nat 1 0) (sweptRun.take 3) = some afterSweep := by
  let held := (start Nat 1 0).store.hold (js "a") ⟨1, some 1000⟩
  have hset : (start Nat 1 0).store.set 0 (js "a") 1 (some 1) = .ok held := by
    have hexpiry : expiryOf 0 ((some (1 : Rat)).getD TTL_SEC) = some 1000 := by simp [expiryOf]
    have hroom : (start Nat 1 0).store.makeRoom 0 (js "a") = (start Nat 1 0).store :=
      evictUntilRoom_room (by decide)
    rw [set_of_makeRoom hroom (by decide), hexpiry]
  have hcheckData : held.cache.checkData 2000 = { maxKeys := 1, entries := ∅ } := by
    have hexp : WrappedValue.expired 2000 (⟨1, some 1000⟩ : WrappedValue Nat) = true := by decide
    have hcheck : held.cache.check 2000 (js "a") = (false, { maxKeys := 1, entries := ∅ }) :=
      if_pos (e := (true, held.cache)) hexp
    exact congrArg Prod.snd hcheck
  have hrest : ∀ p : Process Nat, run step p [.advance 2000, .checkData] =
      some ({ p.next (.advance 2000) none [] p.store with now := p.now + 2000 }.next .checkData
        none [] { p.store with cache := p.store.cache.checkData (p.now + 2000) }) := fun _ => rfl
  have htake : sweptRun.take 3 = [.set (js "a") 1 (some 1)] ++ [.advance 2000, .checkData] := rfl
  rw [htake, run_append, run_next (step_set (p := start Nat 1 0) hset), run, Option.bind_some,
    hrest, afterSweep, ← hcheckData]
  rfl

def full : MemoryStore Nat := afterSweep.store.hold (js "b") ⟨2, expiryOf 2000 TTL_SEC⟩

theorem set_afterSweep : afterSweep.store.set 2000 (js "b") 2 none = .ok full := by
  have hroom : afterSweep.store.makeRoom 2000 (js "b") = afterSweep.store :=
    evictUntilRoom_room (by decide)
  exact set_of_makeRoom hroom (by decide)

/-- The first eviction removes nothing. -/
theorem makeRoom_full : full.makeRoom 2000 (js "c") =
    { cache := { maxKeys := 1, entries := ∅ }, recency := .empty, evictionsTotal := 2 } := by
  rw [makeRoom, evictUntilRoom_next (by decide) (evict_oldest rfl),
    evictUntilRoom_next (by decide) (evict_oldest rfl), evictUntilRoom_room (by decide)]
  rfl

theorem swept_key_stays : (∃ p, run step (start Nat 1 0) (sweptRun.take 3) = some p ∧
    js "a" ∈ p.store.recency ∧ js "a" ∉ p.store.cache.entries) ∧
    (∃ p, run step (start Nat 1 0) (sweptRun.take 4) = some p ∧
      p.store.recency.keys = [js "a", js "b"]) ∧
    ∃ p, run step (start Nat 1 0) sweptRun = some p ∧ p.store.evictionsTotal = 2 ∧
      removals p.history = 1 := by
  refine ⟨⟨afterSweep, run_afterSweep, by decide, by decide⟩, ?_, ?_⟩
  · have htake : sweptRun.take 4 = sweptRun.take 3 ++ [.set (js "b") 2 none] := rfl
    rw [htake, run_append, run_afterSweep, Option.bind_some,
      run_next (step_set (p := afterSweep) set_afterSweep)]
    exact ⟨_, rfl, rfl⟩
  · have htake : sweptRun = sweptRun.take 3 ++ [.set (js "b") 2 none, .set (js "c") 3 none] := rfl
    rw [htake, run_append, run_afterSweep, Option.bind_some,
      run_next (step_set (p := afterSweep) set_afterSweep)]
    have hc : full.set 2000 (js "c") 3 none = .ok _ := set_of_makeRoom makeRoom_full (by decide)
    rw [run_next (step_set hc)]
    exact ⟨_, rfl, rfl, rfl⟩

end NewsApi.Cache.RecencyIndex
