import Mathlib.Logic.Function.Basic
import Mathlib.Logic.Relation
import NewsApi.Collections.Slots

/-! # Shared work with counted subscribers

Callers that want the same key share one flight. A caller looks whether a
flight of its key exists, joins it or creates one, and waits; whoever comes
after an abort is late. A flight counts its subscribers, is aborted by the last
one who leaves before it has settled, and stays in the map until it settles.
A caller who is gone before it could join still creates the flight: an orphan. -/
namespace NewsApi.Async.SingleFlight
open NewsApi.Collections

structure Flight (K : Type) where
  key : K
  subscribers : Int
  settled : Bool
  aborted : Bool
  orphan : Bool

inductive Stage where
  | looking
  | waiting (flight : Nat) (late : Bool)
  /-- no longer waiting: served, or gone -/
  | released (flight : Nat) (late : Bool)
  /-- over without a flight -/
  | ended

structure Caller where
  gone : Bool
  stage : Stage

structure Board (K : Type) where
  flights : List (Flight K)
  map : K → Option Nat
  callers : List Caller

def Board.initial (K : Type) : Board K where
  flights := []
  map _ := none
  callers := []

variable {K : Type}

/-- One subscriber less; the last one aborts a flight that has not settled. -/
def Flight.unsubscribe (f : Flight K) : Flight K :=
  { f with
    subscribers := f.subscribers - 1
    aborted := f.aborted || (!f.settled && f.subscribers - 1 == 0) }

def Board.put (b : Board K) (i : Nat) (c : Caller) (n : Nat) (f : Flight K) : Board K :=
  { b with callers := b.callers.set i c, flights := b.flights.set n f }

def Board.setCaller (b : Board K) (i : Nat) (c : Caller) : Board K :=
  { b with callers := b.callers.set i c }

/-- A new flight; its creator becomes `c`. -/
def Board.open [DecidableEq K] (b : Board K) (i : Nat) (c : Caller) (f : Flight K) : Board K where
  flights := b.flights ++ [f]
  map := Function.update b.map f.key (some b.flights.length)
  callers := b.callers.set i c

def Board.close [DecidableEq K] (b : Board K) (n : Nat) (f : Flight K) : Board K :=
  { b with
    flights := b.flights.set n { f with settled := true }
    map := if b.map f.key = some n then Function.update b.map f.key none else b.map }

inductive Step [DecidableEq K] (b : Board K) : Board K → Prop
  | arrive (c : Caller) (hc : c.stage = .looking ∨ c.stage = .ended) :
    Step b { b with callers := b.callers ++ [c] }
  | finish {i : Nat} {gone : Bool} (hi : b.callers[i]? = some ⟨gone, .looking⟩) :
    Step b (b.setCaller i ⟨gone, .ended⟩)
  | join {i n : Nat} {f : Flight K} (hi : b.callers[i]? = some ⟨false, .looking⟩)
    (hf : b.flights[n]? = some f) (hm : b.map f.key = some n) :
    Step b (b.put i ⟨false, .waiting n f.aborted⟩ n { f with subscribers := f.subscribers + 1 })
  | create {i : Nat} {k : K} (hi : b.callers[i]? = some ⟨false, .looking⟩) (hm : b.map k = none) :
    Step b (b.open i ⟨false, .waiting b.flights.length false⟩ ⟨k, 1, false, false, false⟩)
  | abandon {i : Nat} {k : K} (hi : b.callers[i]? = some ⟨true, .looking⟩) (hm : b.map k = none) :
    Step b (b.open i ⟨true, .ended⟩ ⟨k, 0, false, false, true⟩)
  | leave {i n : Nat} {gone late : Bool} {f : Flight K}
    (hi : b.callers[i]? = some ⟨gone, .waiting n late⟩) (hf : b.flights[n]? = some f) :
    Step b (b.put i ⟨true, .released n late⟩ n f.unsubscribe)
  | hangUp {i : Nat} {c : Caller} (hi : b.callers[i]? = some c)
    (hc : ∀ n late, c.stage ≠ .waiting n late) : Step b (b.setCaller i { c with gone := true })
  | settle {n : Nat} {f : Flight K} (hf : b.flights[n]? = some f) (hs : f.settled = false) :
    Step b (b.close n f)
  | serve {i n : Nat} {gone late : Bool} {f : Flight K}
    (hi : b.callers[i]? = some ⟨gone, .waiting n late⟩) (hf : b.flights[n]? = some f)
    (hs : f.settled = true) : Step b (b.put i ⟨gone, .released n late⟩ n f.unsubscribe)

/-! ## The invariant -/

def Caller.waitsFor (n : Nat) (c : Caller) : Bool :=
  match c.stage with
  | .waiting m _ => m == n
  | _ => false

/-- Whoever waits is there; whoever was served was served by a settled flight.
The flight of neither was aborted after it joined. -/
def Caller.Ok (flights : List (Flight K)) (c : Caller) : Prop :=
  match c.stage with
  | .waiting n late => c.gone = false ∧ ∃ f, flights[n]? = some f ∧
      (late = false → f.aborted = false)
  | .released n late => ∃ f, flights[n]? = some f ∧
      (c.gone = false → f.settled = true ∧ (late = false → f.aborted = false))
  | _ => True

structure Inv (b : Board K) : Prop where
  mapped : ∀ (n : Nat) f, b.flights[n]? = some f → f.settled = false → b.map f.key = some n
  live : ∀ k n, b.map k = some n → ∃ f, b.flights[n]? = some f ∧ f.key = k ∧ f.settled = false
  count : ∀ (n : Nat) f, b.flights[n]? = some f →
    f.subscribers = b.callers.countP (Caller.waitsFor n)
  subscribed : ∀ (n : Nat) f, b.flights[n]? = some f → f.settled = false → f.aborted = false →
    f.orphan = false → 0 < f.subscribers
  callers : ∀ c ∈ b.callers, c.Ok b.flights

variable {b b' : Board K} {i n : Nat} {c c' : Caller} {f f' : Flight K}

theorem countP_set_caller (hc : b.callers[i]? = some c) (m : Nat) :
    ((b.callers.set i c').countP (Caller.waitsFor m) : Int) =
      b.callers.countP (Caller.waitsFor m) - (if c.waitsFor m then 1 else 0) +
        (if c'.waitsFor m then 1 else 0) := by
  obtain ⟨hlt, heq⟩ := List.getElem?_eq_some_iff.mp hc
  rw [List.countP_set hlt, heq]
  have hpos : c.waitsFor m = true → 0 < b.callers.countP (Caller.waitsFor m) := fun h =>
    List.countP_pos_iff.mpr ⟨c, List.mem_of_getElem? hc, h⟩
  generalize b.callers.countP (Caller.waitsFor m) = k at hpos ⊢
  cases hw : c.waitsFor m <;> cases hw' : c'.waitsFor m <;> simp [hw] at hpos ⊢ <;> omega

/-- What is known of a caller survives a change of a flight that aborts it only
when nobody waits for it and it has not settled. -/
theorem Caller.Ok.flight {d : Caller} (h : d.Ok b.flights) (hf : b.flights[n]? = some f)
    (hs : f'.settled = f.settled)
    (ha : f'.aborted = f.aborted ∨ d.waitsFor n = false ∧ f.settled = false) :
    d.Ok (b.flights.set n f') := by
  obtain ⟨hlt, -⟩ := List.getElem?_eq_some_iff.mp hf
  unfold Caller.Ok at h ⊢
  cases hd : d.stage with
  | waiting m late =>
    rw [hd] at h
    obtain ⟨hgone, g, hg, hlate⟩ := h
    refine ⟨hgone, ?_⟩
    by_cases hm : m = n
    · subst hm
      cases hf.symm.trans hg
      refine ⟨f', List.getElem?_set_self hlt, fun hl => ?_⟩
      rcases ha with ha | ⟨ha, -⟩
      · exact ha.trans (hlate hl)
      · simp [waitsFor, hd] at ha
    · exact ⟨g, by rw [List.getElem?_set_ne (Ne.symm hm)]; exact hg, hlate⟩
  | released m late =>
    rw [hd] at h
    obtain ⟨g, hg, hserved⟩ := h
    by_cases hm : m = n
    · subst hm
      cases hf.symm.trans hg
      refine ⟨f', List.getElem?_set_self hlt, fun hgone => ?_⟩
      obtain ⟨hset, hlate⟩ := hserved hgone
      rcases ha with ha | ⟨-, hunset⟩
      · exact ⟨hs.trans hset, fun hl => ha.trans (hlate hl)⟩
      · rw [hset] at hunset; cases hunset
    · exact ⟨g, by rw [List.getElem?_set_ne (Ne.symm hm)]; exact hg, hserved⟩
  | looking | ended => trivial

/-- The invariant after a caller and a flight have changed. -/
theorem Inv.put (h : Inv b) (hc : b.callers[i]? = some c) (hf : b.flights[n]? = some f)
    (hkey : f'.key = f.key) (hs : f'.settled = f.settled)
    (hcount : f'.subscribers = f.subscribers - (if c.waitsFor n then 1 else 0) +
      (if c'.waitsFor n then 1 else 0))
    (hothers : ∀ m, m ≠ n → c'.waitsFor m = c.waitsFor m)
    (hsub : f'.settled = false → f'.aborted = false → f'.orphan = false → 0 < f'.subscribers)
    (ha : f'.aborted = f.aborted ∨ f'.subscribers = 0 ∧ f.settled = false)
    (hok : c'.Ok (b.flights.set n f')) : Inv (b.put i c' n f') := by
  obtain ⟨hlt, -⟩ := List.getElem?_eq_some_iff.mp hf
  have hcounted : ∀ (m : Nat) g, (b.flights.set n f')[m]? = some g →
      g.subscribers = (b.callers.set i c').countP (Caller.waitsFor m) := by
    intro m g hg
    rw [countP_set_caller hc]
    rcases getElem?_set_cases hg with ⟨rfl, rfl⟩ | ⟨hm, hg⟩
    · rw [hcount, h.count m f hf]
    · rw [hothers m hm, h.count m g hg]
      omega
  refine ⟨?_, ?_, hcounted, ?_, ?_⟩
  · intro m g hg hset
    rcases getElem?_set_cases hg with ⟨rfl, rfl⟩ | ⟨-, hg⟩
    · exact hkey ▸ h.mapped m f hf (hs ▸ hset)
    · exact h.mapped m g hg hset
  · intro k m hm
    obtain ⟨g, hg, hk, hset⟩ := h.live k m hm
    by_cases hmn : m = n
    · subst hmn
      cases hf.symm.trans hg
      exact ⟨f', List.getElem?_set_self hlt, hkey.trans hk, hs.trans hset⟩
    · exact ⟨g, by rw [Board.put, List.getElem?_set_ne (Ne.symm hmn)]; exact hg, hk, hset⟩
  · intro m g hg hset hab hor
    rcases getElem?_set_cases hg with ⟨rfl, rfl⟩ | ⟨-, hg⟩
    · exact hsub hset hab hor
    · exact h.subscribed m g hg hset hab hor
  · intro d hd
    obtain ⟨j, hj⟩ := List.getElem?_of_mem hd
    rcases getElem?_set_cases hj with ⟨rfl, rfl⟩ | ⟨hji, hj⟩
    · exact hok
    · refine (h.callers d (List.mem_of_getElem? hj)).flight hf hs
        (ha.imp_right fun hz => ⟨?_, hz.2⟩)
      -- nobody else is counted any more
      have hzero := hcounted n f' (List.getElem?_set_self hlt)
      rw [hz.1] at hzero
      have := List.countP_eq_zero.mp (Int.ofNat_eq_zero.mp hzero.symm) d hd
      simpa using this

theorem Inv.setCaller (h : Inv b) (hc : b.callers[i]? = some c)
    (hw : ∀ m, c'.waitsFor m = c.waitsFor m) (hok : c'.Ok b.flights) :
    Inv (b.setCaller i c') := by
  refine ⟨h.mapped, h.live, fun m g hg => ?_, h.subscribed, fun d hd => ?_⟩
  · show g.subscribers = ((b.callers.set i c').countP _ : Nat)
    rw [countP_set_caller hc, hw, h.count m g hg]
    omega
  · rcases List.mem_or_eq_of_mem_set hd with hd | rfl
    · exact h.callers d hd
    · exact hok

theorem Inv.arrive (h : Inv b) (hc : c.stage = .looking ∨ c.stage = .ended) :
    Inv { b with callers := b.callers ++ [c] } := by
  have hw : ∀ m, c.waitsFor m = false := by
    intro m
    rcases hc with hc | hc <;> simp [Caller.waitsFor, hc]
  refine ⟨h.mapped, h.live, fun m g hg => ?_, h.subscribed, fun d hd => ?_⟩
  · show g.subscribers = ((b.callers ++ [c]).countP _ : Nat)
    rw [List.countP_append, List.countP_singleton, hw]
    simpa using h.count m g hg
  · rcases List.mem_append.mp hd with hd | hd
    · exact h.callers d hd
    · rw [List.mem_singleton.mp hd]
      rcases hc with hc | hc <;> simp [Caller.Ok, hc]

/-- What is known of a caller survives a new flight. -/
theorem Caller.Ok.append {d : Caller} (h : d.Ok b.flights) (g : Flight K) :
    d.Ok (b.flights ++ [g]) := by
  have hget : ∀ {m : Nat} {f : Flight K}, b.flights[m]? = some f →
      (b.flights ++ [g])[m]? = some f := fun hf => getElem?_append_old hf _
  unfold Caller.Ok at h ⊢
  cases hd : d.stage with
  | waiting m late =>
    rw [hd] at h
    exact h.imp_right fun ⟨f, hf, hl⟩ => ⟨f, hget hf, hl⟩
  | released m late =>
    rw [hd] at h
    obtain ⟨f, hf, hl⟩ := h
    exact ⟨f, hget hf, hl⟩
  | looking | ended => trivial

theorem Caller.Ok.settle {d : Caller} (h : d.Ok b.flights) (hf : b.flights[n]? = some f) :
    d.Ok (b.flights.set n { f with settled := true }) := by
  obtain ⟨hlt, -⟩ := List.getElem?_eq_some_iff.mp hf
  have hget : ∀ {m : Nat} {g : Flight K}, b.flights[m]? = some g →
      ∃ g', (b.flights.set n { f with settled := true })[m]? = some g' ∧
        g'.aborted = g.aborted ∧ (g.settled = true → g'.settled = true) := by
    intro m g hg
    by_cases hm : m = n
    · subst hm
      cases hf.symm.trans hg
      exact ⟨_, List.getElem?_set_self hlt, rfl, fun _ => rfl⟩
    · exact ⟨g, by rw [List.getElem?_set_ne (Ne.symm hm)]; exact hg, rfl, id⟩
  unfold Caller.Ok at h ⊢
  cases hd : d.stage with
  | waiting m late =>
    rw [hd] at h
    obtain ⟨hgone, g, hg, hl⟩ := h
    obtain ⟨g', hg', ha, -⟩ := hget hg
    exact ⟨hgone, g', hg', fun hlate => ha.trans (hl hlate)⟩
  | released m late =>
    rw [hd] at h
    obtain ⟨g, hg, hl⟩ := h
    obtain ⟨g', hg', ha, hs⟩ := hget hg
    exact ⟨g', hg', fun hgone => ⟨hs (hl hgone).1, fun hlate => ha.trans ((hl hgone).2 hlate)⟩⟩
  | looking | ended => trivial

section
variable [DecidableEq K]

/-- The invariant after a flight was opened for a key that had none. -/
theorem Inv.open (h : Inv b) (hc : b.callers[i]? = some c) (hm : b.map f.key = none)
    (hs : f.settled = false) (hlook : ∀ m, c.waitsFor m = false)
    (hw : ∀ m, c'.waitsFor m = true ↔ m = b.flights.length ∧ f.subscribers = 1)
    (hsub : f.subscribers = 0 ∨ f.subscribers = 1) (hor : f.orphan = false → f.subscribers = 1)
    (hok : c'.Ok (b.flights ++ [f])) : Inv (b.open i c' f) := by
  have hcases : ∀ {m : Nat} {g : Flight K}, (b.flights ++ [f])[m]? = some g →
      b.flights[m]? = some g ∧ m < b.flights.length ∨ m = b.flights.length ∧ g = f := by
    intro m g hg
    exact (getElem?_append_cases hg).imp_left And.symm
  have hnew : (b.flights ++ [f])[b.flights.length]? = some f := by simp
  -- nobody waits for a flight that does not exist
  have hnobody : b.callers.countP (Caller.waitsFor b.flights.length) = 0 := by
    rw [List.countP_eq_zero]
    intro d hd hwd
    have hd := h.callers d hd
    unfold Caller.waitsFor at hwd
    unfold Caller.Ok at hd
    split at hwd
    · rename_i m late hstage
      rw [hstage] at hd
      obtain ⟨-, g, hg, -⟩ := hd
      have hlt := (List.getElem?_eq_some_iff.mp hg).1
      have := beq_iff_eq.mp hwd
      omega
    · cases hwd
  refine ⟨?_, ?_, ?_, ?_, ?_⟩
  · intro m g hg hset
    show Function.update b.map f.key (some b.flights.length) g.key = some m
    rcases hcases hg with ⟨hg, hlt⟩ | ⟨rfl, rfl⟩
    · have hmap := h.mapped m g hg hset
      have hne : g.key ≠ f.key := fun hk => by
        rw [hk, hm] at hmap
        cases hmap
      rw [Function.update_of_ne hne]
      exact hmap
    · exact Function.update_self ..
  · intro k m hk
    change Function.update b.map f.key (some b.flights.length) k = some m at hk
    by_cases hkey : k = f.key
    · subst hkey
      rw [Function.update_self] at hk
      cases hk
      exact ⟨f, hnew, rfl, hs⟩
    · rw [Function.update_of_ne hkey] at hk
      obtain ⟨g, hg, hgk, hset⟩ := h.live k m hk
      refine ⟨g, ?_, hgk, hset⟩
      exact getElem?_append_old hg _
  · intro m g hg
    show g.subscribers = ((b.callers.set i c').countP _ : Nat)
    rw [countP_set_caller hc, hlook]
    rcases hcases hg with ⟨hg, hlt⟩ | ⟨rfl, rfl⟩
    · have : c'.waitsFor m = false := by
        rw [Bool.eq_false_iff]
        exact fun hwm => absurd ((hw m).mp hwm).1 (by omega)
      rw [this, h.count m g hg]
      simp
    · rw [hnobody]
      rcases hsub with hz | hz
      · have : c'.waitsFor b.flights.length = false := by
          rw [Bool.eq_false_iff]
          exact fun hwm => absurd (((hw _).mp hwm).2.symm.trans hz) (by decide)
        simp [this, hz]
      · simp [(hw _).mpr ⟨rfl, hz⟩, hz]
  · intro m g hg hset hab horph
    rcases hcases hg with ⟨hg, -⟩ | ⟨-, rfl⟩
    · exact h.subscribed m g hg hset hab horph
    · rw [hor horph]
      decide
  · intro d hd
    rcases List.mem_or_eq_of_mem_set hd with hd | rfl
    · exact (h.callers d hd).append f
    · exact hok

/-- The invariant after a flight has settled. -/
theorem Inv.close (h : Inv b) (hf : b.flights[n]? = some f) (hs : f.settled = false) :
    Inv (b.close n f) := by
  have hmap := h.mapped n f hf hs
  have hclose : b.close n f = { b with
      flights := b.flights.set n { f with settled := true }
      map := Function.update b.map f.key none } := by
    unfold Board.close
    rw [if_pos hmap]
  rw [hclose]
  refine ⟨?_, ?_, ?_, ?_, ?_⟩
  · intro m g hg hset
    show Function.update b.map f.key none g.key = some m
    rcases getElem?_set_cases hg with ⟨rfl, rfl⟩ | ⟨hm, hg⟩
    · cases hset
    · have hgmap := h.mapped m g hg hset
      have hne : g.key ≠ f.key := fun hk => by
        rw [hk, hmap] at hgmap
        exact hm (Option.some.inj hgmap).symm
      rw [Function.update_of_ne hne]
      exact hgmap
  · intro k m hk
    change Function.update b.map f.key none k = some m at hk
    by_cases hkey : k = f.key
    · rw [hkey, Function.update_self] at hk
      cases hk
    · rw [Function.update_of_ne hkey] at hk
      obtain ⟨g, hg, hgk, hset⟩ := h.live k m hk
      refine ⟨g, ?_, hgk, hset⟩
      have hmn : n ≠ m := fun hmn => by
        subst hmn
        cases hf.symm.trans hg
        exact hkey hgk.symm
      show (b.flights.set n _)[m]? = some g
      rw [List.getElem?_set_ne hmn]
      exact hg
  · intro m g hg
    rcases getElem?_set_cases hg with ⟨rfl, rfl⟩ | ⟨-, hg⟩
    · exact h.count m f hf
    · exact h.count m g hg
  · intro m g hg hset
    rcases getElem?_set_cases hg with ⟨rfl, rfl⟩ | ⟨-, hg⟩
    · cases hset
    · exact h.subscribed m g hg hset
  · intro d hd
    exact (h.callers d hd).settle hf

omit [DecidableEq K] in
theorem Inv.positive (h : Inv b) (hf : b.flights[n]? = some f) (hc : b.callers[i]? = some c)
    (hw : c.waitsFor n = true) : 0 < f.subscribers := by
  rw [h.count n f hf]
  exact Int.natCast_pos.mpr (List.countP_pos_iff.mpr ⟨c, List.mem_of_getElem? hc, hw⟩)

omit [DecidableEq K] in
/-- A waiting caller is released. -/
theorem Inv.release {gone gone' late : Bool} (h : Inv b)
    (hi : b.callers[i]? = some ⟨gone, .waiting n late⟩) (hf : b.flights[n]? = some f)
    (hok : gone' = false → f.settled = true ∧ gone = false) :
    Inv (b.put i ⟨gone', .released n late⟩ n f.unsubscribe) := by
  obtain ⟨hlt, -⟩ := List.getElem?_eq_some_iff.mp hf
  have hpos := h.positive hf hi (by simp [Caller.waitsFor])
  refine h.put hi hf rfl rfl ?_ ?_ ?_ ?_ ?_
  · simp [Flight.unsubscribe, Caller.waitsFor]
  · intro m hm
    simp [Caller.waitsFor, Ne.symm hm]
  · intro hs ha hor
    have hne : f.subscribers - 1 ≠ 0 := by
      intro hz
      simp [Flight.unsubscribe, hz] at ha hs
      simp [hs] at ha
    show 0 < f.subscribers - 1
    omega
  · by_cases hz : f.settled = false ∧ f.subscribers - 1 = 0
    · exact .inr ⟨hz.2, hz.1⟩
    · refine .inl ?_
      have : (!f.settled && f.subscribers - 1 == 0) = false := by
        rw [Bool.eq_false_iff]
        intro hb
        simp only [Bool.and_eq_true, Bool.not_eq_true', beq_iff_eq] at hb
        exact hz hb
      simp [Flight.unsubscribe, this]
  · refine ⟨f.unsubscribe, List.getElem?_set_self hlt, fun hg => ?_⟩
    obtain ⟨hs, hgone⟩ := hok hg
    have hold := h.callers _ (List.mem_of_getElem? hi)
    obtain ⟨-, g, hg, hlate⟩ := hold
    cases hf.symm.trans hg
    exact ⟨hs, fun hl => by simp [Flight.unsubscribe, hs, hlate hl]⟩

/-- Every step keeps the accounts. -/
theorem Inv.step (h : Inv b) (hs : Step b b') : Inv b' := by
  cases hs with
  | arrive c hc => exact h.arrive hc
  | finish hi => exact h.setCaller hi (fun _ => rfl) trivial
  | @join i n f hi hf hm =>
    obtain ⟨hlt, -⟩ := List.getElem?_eq_some_iff.mp hf
    have hcount := h.count n f hf
    refine h.put hi hf rfl rfl ?_ ?_ ?_ (.inl rfl) ?_
    · simp [Caller.waitsFor]
    · intro m hne
      simp [Caller.waitsFor, Ne.symm hne]
    · intro _ _ _
      show 0 < f.subscribers + 1
      omega
    · exact ⟨rfl, _, List.getElem?_set_self hlt, id⟩
  | create hi hm =>
    refine h.open hi hm rfl (fun _ => rfl) (fun m => ?_) (.inr rfl) (fun _ => rfl) ?_
    · exact ⟨fun h => ⟨(beq_iff_eq.mp h).symm, rfl⟩, fun h => beq_iff_eq.mpr h.1.symm⟩
    · exact ⟨rfl, _, List.getElem?_concat_length, fun _ => rfl⟩
  | abandon hi hm =>
    refine h.open hi hm rfl (fun _ => rfl) (fun m => ?_) (.inl rfl) nofun trivial
    simp [Caller.waitsFor]
  | leave hi hf => exact h.release hi hf nofun
  | @hangUp i c hi hc =>
    have hok := h.callers c (List.mem_of_getElem? hi)
    refine h.setCaller hi (fun _ => rfl) ?_
    unfold Caller.Ok at hok ⊢
    cases hd : c.stage with
    | waiting m late => exact absurd hd (hc m late)
    | released m late =>
      rw [hd] at hok
      obtain ⟨f, hf, -⟩ := hok
      exact ⟨f, hf, nofun⟩
    | looking | ended => trivial
  | settle hf hs => exact h.close hf hs
  | @serve i n gone late f hi hf hs => exact h.release hi hf fun hg => ⟨hs, hg⟩

omit [DecidableEq K] in
theorem Inv.initial : Inv (Board.initial K) where
  mapped _ _ h := nomatch h
  live _ _ h := nomatch h
  count _ _ h := nomatch h
  subscribed _ _ h := nomatch h
  callers _ h := nomatch h

/-! ## What a step does to a flight -/

/-- A flight is aborted by its last subscriber before it has settled, and leaves
the map once it has settled. -/
structure Flight.Next (b b' : Board K) (n : Nat) (f f' : Flight K) : Prop where
  key : f'.key = f.key
  settled : f.settled = true → f'.settled = true
  aborted : f.aborted = true → f'.aborted = true
  abort : f.aborted = false → f'.aborted = true →
    f'.settled = false ∧ f.subscribers = 1 ∧ f'.subscribers = 0
  unmap : b.map f.key = some n → b'.map f.key ≠ some n → f'.settled = true

omit [DecidableEq K] in
theorem Flight.Next.same (hmap : b.map f.key = some n → b'.map f.key = some n) :
    Flight.Next b b' n f f :=
  ⟨rfl, id, id, fun h h' => (nomatch h.symm.trans h'), fun h h' => absurd (hmap h) h'⟩

omit [DecidableEq K] in
theorem next_unsubscribe (hmap : b'.map = b.map) : Flight.Next b b' n f f.unsubscribe := by
  refine ⟨rfl, id, fun h => by simp [Flight.unsubscribe, h], fun h h' => ?_,
    fun h h' => absurd (hmap ▸ h) h'⟩
  simp only [Flight.unsubscribe, h, Bool.false_or, Bool.and_eq_true, Bool.not_eq_true',
    beq_iff_eq] at h'
  exact ⟨h'.1, by omega, h'.2⟩

omit [DecidableEq K] in
theorem next_put {j m : Nat} {g g' : Flight K} (hg : b.flights[m]? = some g)
    (hnext : Flight.Next b (b.put j c m g') m g g') (hf : b.flights[n]? = some f) :
    ∃ f', (b.put j c m g').flights[n]? = some f' ∧ Flight.Next b (b.put j c m g') n f f' := by
  exact getElem?_set_goes (R := Flight.Next b (b.put j c m g')) hg hnext
    (fun _ _ _ => .same id) hf

theorem next_open {j : Nat} {g : Flight K} (hm : b.map g.key = none)
    (hf : b.flights[n]? = some f) :
    ∃ f', (b.open j c g).flights[n]? = some f' ∧ Flight.Next b (b.open j c g) n f f' := by
  refine ⟨f, ?_, .same fun h => ?_⟩
  · exact getElem?_append_old hf _
  · have hne : f.key ≠ g.key := fun hk => by
      rw [hk, hm] at h
      cases h
    exact (Function.update_of_ne hne ..).trans h

theorem next_close {m : Nat} {g : Flight K} (hg : b.flights[m]? = some g)
    (hf : b.flights[n]? = some f) :
    ∃ f', (b.close m g).flights[n]? = some f' ∧ Flight.Next b (b.close m g) n f f' := by
  by_cases hm : m = n
  · subst hm
    cases hf.symm.trans hg
    refine ⟨_, getElem?_set_here hf _, rfl, fun _ => rfl, id,
      fun h h' => (nomatch h.symm.trans h'), fun _ _ => rfl⟩
  · refine ⟨f, (List.getElem?_set_ne hm).trans hf, .same fun h => ?_⟩
    unfold Board.close
    split
    · rename_i hmap
      have hne : f.key ≠ g.key := fun hk => by
        rw [← hk, h] at hmap
        exact hm (Option.some.inj hmap).symm
      exact (Function.update_of_ne hne ..).trans h
    · exact h

/-- Every flight goes on. -/
theorem Step.flight (hs : Step b b') (hf : b.flights[n]? = some f) :
    ∃ f', b'.flights[n]? = some f' ∧ Flight.Next b b' n f f' := by
  cases hs with
  | arrive | finish | hangUp => exact ⟨f, hf, .same id⟩
  | join hi hg hm => exact next_put hg ⟨rfl, id, id, fun h h' => (nomatch h.symm.trans h'),
      fun h h' => absurd h h'⟩ hf
  | create hi hm => exact next_open hm hf
  | abandon hi hm => exact next_open hm hf
  | leave hi hg => exact next_put hg (next_unsubscribe rfl) hf
  | serve hi hg => exact next_put hg (next_unsubscribe rfl) hf
  | settle hg => exact next_close hg hf

/-! ## What a step does to a caller -/

/-- A caller waits for one flight, and is released once. -/
structure Caller.Next (c c' : Caller) : Prop where
  gone : c.gone = true → c'.gone = true
  waiting : ∀ n late, c.stage = .waiting n late →
    c'.stage = .waiting n late ∨ c'.stage = .released n late
  released : ∀ n late, c.stage = .released n late → c'.stage = .released n late

theorem Caller.Next.refl (c : Caller) : Caller.Next c c :=
  ⟨id, fun _ _ => .inl, fun _ _ => id⟩

theorem Caller.Next.ofLooking {gone gone' : Bool} {stage : Stage}
    (hg : gone = true → gone' = true) : Caller.Next ⟨gone, .looking⟩ ⟨gone', stage⟩ :=
  ⟨hg, fun _ _ h => (nomatch h), fun _ _ h => (nomatch h)⟩

theorem Caller.Next.ofWaiting {gone gone' late : Bool} (hg : gone = true → gone' = true) :
    Caller.Next ⟨gone, .waiting n late⟩ ⟨gone', .released n late⟩ where
  gone := hg
  waiting _ _ h := by cases h; exact .inr rfl
  released _ _ h := nomatch h

theorem next_set {callers : List Caller} {j : Nat} {d d' : Caller} (hd : callers[j]? = some d)
    (hnext : Caller.Next d d') (hc : callers[i]? = some c) :
    ∃ c', (callers.set j d')[i]? = some c' ∧ Caller.Next c c' := by
  exact getElem?_set_goes (R := fun _ => Caller.Next) hd hnext (fun _ c _ => .refl c) hc

/-- Every caller goes on. -/
theorem Step.caller (hs : Step b b') (hc : b.callers[i]? = some c) :
    ∃ c', b'.callers[i]? = some c' ∧ Caller.Next c c' := by
  cases hs with
  | arrive d hd =>
    refine ⟨c, ?_, .refl c⟩
    exact getElem?_append_old hc _
  | finish hi => exact next_set hi (.ofLooking id) hc
  | join hi hg hm => exact next_set hi (.ofLooking id) hc
  | create hi hm => exact next_set hi (.ofLooking id) hc
  | abandon hi hm => exact next_set hi (.ofLooking id) hc
  | leave hi hg => exact next_set hi (.ofWaiting fun _ => rfl) hc
  | hangUp hi hd => exact next_set hi ⟨fun _ => rfl, fun _ _ => .inl, fun _ _ => id⟩ hc
  | settle hg => exact ⟨c, hc, .refl c⟩
  | serve hi hg => exact next_set hi (.ofWaiting id) hc

end

end NewsApi.Async.SingleFlight
