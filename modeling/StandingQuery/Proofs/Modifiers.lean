import Mathlib.Data.List.Forall2
import StandingQuery.Proofs.Binding
import StandingQuery.Proofs.Delivery
import StandingQuery.Proofs.Memory

/-! What the modifiers make of a list of candidates.

Read as operations on lists, the modifiers filter the candidates, leave out those that
look the same through the projection as one that is remembered, drop as many as the offset
says, and take as many as the limit says, or only the first (`Modifiers.chosen`). What a
solution says of its candidate depends on the form of the query (`Modifiers.Tells`). The
modifiers are *sated* once a candidate has got past the offset that nothing more can
follow. A registered query works on one candidate at a time, with a memory and two
counters; as long as it is not sated, each candidate that it is offered comes to the same
as one more in the list (`Registered.Reflects.offer`). -/
namespace StandingQuery
open Std

/-! ### Repetitions -/

/-- Of things that come one after the other, those that are not the same as something remembered
when they come. -/
def Distinctness.thin {α : Type} (d : Distinctness) (capacity : Nat) (same : α → α → Bool)
    (as : List α) : List α :=
  as.foldl (fun kept a => if (d.remembered capacity kept).any (same a) then kept else kept ++ [a]) []

section Thin

variable {α : Type} {d : Distinctness} {capacity : Nat} {same : α → α → Bool}

theorem Distinctness.thin_concat (as : List α) (a : α) : d.thin capacity same (as ++ [a]) =
    if (d.remembered capacity (d.thin capacity same as)).any (same a) then d.thin capacity same as
    else d.thin capacity same as ++ [a] := by
  unfold thin
  rw [List.foldl_append]
  rfl

/-- What is the same may be told by a key instead. -/
theorem Distinctness.any_remembered_iff {β : Type} (key : α → β)
    (hkey : ∀ a b, same a b = true ↔ key a = key b) (as : List α) (a : α) :
    (d.remembered capacity as).any (same a) = true ↔
      key a ∈ d.remembered capacity (as.map key) := by
  rw [remembered_map, List.any_eq_true, List.mem_map]
  exact exists_congr fun b => and_congr_right fun _ => (hkey a b).trans eq_comm

end Thin

/-! ### Projections -/

namespace Projection

/-- The variables that are delivered. -/
def keeps : Projection → Variable → Bool
  | all, _ => true
  | only vars, v => vars.contains v

/-- None of the variables that are delivered is bound differently. -/
def alike (p : Projection) (a b : Binding) : Bool :=
  (a.keys ++ b.keys).all fun v => !p.keeps v || a[v]? == b[v]?

variable {p : Projection} {a b : Binding} {v : Variable}

theorem lookup_apply : (p.apply b)[v]? = if p.keeps v = true then b[v]? else none := by
  cases p with
  | all => rfl
  | only vars =>
    show (b.project vars)[v]? = _
    rw [Binding.lookup_project]
    simp only [keeps, List.contains_iff_mem]

theorem alike_iff : p.alike a b = true ↔ p.apply a = p.apply b := by
  have hall : p.alike a b = true ↔ ∀ v : Variable, p.keeps v = true → a[v]? = b[v]? := by
    unfold alike
    rw [List.all_eq_true]
    constructor
    · intro h v hv
      by_cases hin : v ∈ a.keys ++ b.keys
      · simpa [hv] using h v hin
      · -- What neither of the two binds is the same in both.
        rw [List.mem_append, ExtTreeMap.mem_keys, ExtTreeMap.mem_keys, not_or] at hin
        rw [Binding.lookup_eq_none.2 hin.1, Binding.lookup_eq_none.2 hin.2]
    · intro h v _
      cases hv : p.keeps v with
      | false => rfl
      | true => simpa [hv] using h v hv
  rw [hall]
  constructor
  · intro h
    refine Binding.ext_lookup fun v => ?_
    rw [lookup_apply, lookup_apply]
    split
    · next hv => exact h v hv
    · rfl
  · intro h v hv
    have hlookup : (p.apply a)[v]? = (p.apply b)[v]? := by rw [h]
    rwa [lookup_apply, lookup_apply, if_pos hv, if_pos hv] at hlookup

end Projection

/-! ### As operations on lists -/

namespace Modifiers

/-- What a memory tells candidates apart by. -/
def key (m : Modifiers) (c : Candidate) : Binding := m.projection.apply c.binding

/-- The candidates that pass the filters and are no repetitions. -/
def fresh (m : Modifiers) (capacity : Nat) (cs : List Candidate) : List Candidate :=
  m.distinctness.thin capacity (fun c c' => m.projection.alike c.binding c'.binding)
    (cs.filter m.keeps)

/-- The candidates that come after the offset. -/
def passed (m : Modifiers) (capacity : Nat) (cs : List Candidate) : List Candidate :=
  (m.fresh capacity cs).drop (m.offset.getD 0)

/-- As many as the limit admits. -/
def within (m : Modifiers) (cs : List Candidate) : List Candidate :=
  match m.limit with
  | some limit => cs.take limit
  | none => cs

/-- Of those the first one, if it is all that is wanted. -/
def bounded (m : Modifiers) (cs : List Candidate) : List Candidate :=
  if m.ask then (m.within cs).take 1 else m.within cs

/-- The candidates that are delivered. -/
def chosen (m : Modifiers) (capacity : Nat) (cs : List Candidate) : List Candidate :=
  m.bounded (m.passed capacity cs)

/-- A solution says of a candidate what the form of the query asks for: that there is one, what the
template makes of its full binding, or the variables of it that the projection keeps. -/
structure Tells (m : Modifiers) (id : QueryId) (c : Candidate) (s : Solution) : Prop where
  query : s.query = id
  expiration : s.expiration = c.expiration
  asked : m.ask = true → s.output = .ask true
  constructed : m.ask = false → ∀ template, m.construct = some template →
    s.output = .constructed (template c.binding)
  selected : m.ask = false → m.construct = none → ∃ b, s.output = .bindings b ∧
    ∀ v : Variable, b[v]? = if m.projection.keeps v = true then c.binding[v]? else none

/-- The solutions that a query with these modifiers is sent for candidates. -/
def answers (m : Modifiers) (capacity : Nat) (id : QueryId) (cs : List Candidate) : List Solution :=
  (m.chosen capacity cs).map fun c => ⟨id, m.output c.binding, c.expiration⟩

/-- The limit admits no solution after `n` ones. -/
def full (m : Modifiers) (n : Nat) : Bool := m.limit.any fun limit => limit ≤ n

/-- A candidate has come after the offset, and it was the only one that is wanted, or the last one
within the limit, or the first one beyond it. -/
def sated (m : Modifiers) (capacity : Nat) (cs : List Candidate) : Bool :=
  m.passed capacity cs ≠ [] && (m.ask || m.full (m.passed capacity cs).length)

variable {m : Modifiers} {capacity : Nat} {cs : List Candidate} {c : Candidate}

theorem fresh_concat (m : Modifiers) (capacity : Nat) (cs : List Candidate) (c : Candidate) :
    m.fresh capacity (cs ++ [c]) =
    if m.keeps c = true ∧
        m.key c ∉ m.distinctness.remembered capacity ((m.fresh capacity cs).map m.key)
    then m.fresh capacity cs ++ [c] else m.fresh capacity cs := by
  unfold fresh
  rw [List.filter_append, List.filter_singleton]
  by_cases hkeeps : m.keeps c = true
  · rw [hkeeps, Bool.cond_true, Distinctness.thin_concat]
    simp only [true_and, ite_not, Distinctness.any_remembered_iff m.key
      fun c c' => Projection.alike_iff (a := c.binding) (b := c'.binding)]
  · rw [Bool.eq_false_iff.2 hkeeps, Bool.cond_false, List.append_nil,
      if_neg fun h => Bool.false_ne_true h.1]

@[simp] theorem passed_nil : m.passed capacity [] = [] := List.drop_nil

@[simp] theorem sated_nil : m.sated capacity [] = false := by simp [sated]

theorem full_iff {n : Nat} : m.full n = true ↔ ∃ limit, m.limit = some limit ∧ limit ≤ n := by
  unfold full
  cases m.limit <;> simp

theorem within_eq_self (h : ∀ limit, m.limit = some limit → cs.length ≤ limit) :
    m.within cs = cs := by
  unfold within
  split
  · next limit hlimit => exact List.take_of_length_le (h limit hlimit)
  · rfl

/-- Nothing is cut off as long as more is wanted. -/
theorem bounded_eq_self (hmore : m.ask = true ∨ m.full cs.length = true → cs = []) :
    m.bounded cs = cs := by
  have hwithin : m.within cs = cs := within_eq_self fun limit hlimit => by
    by_cases hle : limit ≤ cs.length
    · rw [hmore (.inr (full_iff.2 ⟨limit, hlimit, hle⟩))]
      exact Nat.zero_le limit
    · omega
  unfold bounded
  rw [hwithin]
  split
  · next hask => rw [hmore (.inl hask), List.take_nil]
  · rfl

/-- One candidate more is delivered if the limit admits it. -/
theorem bounded_concat (hmore : m.ask = true ∨ m.full cs.length = true → cs = []) (c : Candidate) :
    m.bounded (cs ++ [c]) = if m.full cs.length = true then cs else cs ++ [c] := by
  by_cases hfull : m.full cs.length = true
  · obtain rfl := hmore (.inr hfull)
    obtain ⟨limit, hlimit, hle⟩ := full_iff.1 hfull
    obtain rfl := Nat.le_zero.1 hle
    rw [if_pos hfull]
    simp [bounded, within, hlimit]
  · have hwithin : m.within (cs ++ [c]) = cs ++ [c] := within_eq_self fun limit hlimit => by
      have hmore : ¬ limit ≤ cs.length := fun hle => hfull (full_iff.2 ⟨limit, hlimit, hle⟩)
      rw [List.length_append, List.length_singleton]
      omega
    unfold bounded
    rw [if_neg hfull, hwithin]
    split
    · next hask =>
      rw [hmore (.inl hask)]
      rfl
    · rfl

theorem passed_eq_nil (h : m.sated capacity cs = false)
    (hmore : m.ask = true ∨ m.full (m.passed capacity cs).length = true) :
    m.passed capacity cs = [] := by
  by_contra hsome
  have hsated : m.sated capacity cs = true := by simpa [sated, hsome] using hmore
  rw [h] at hsated
  cases hsated

/-- As long as more is wanted, all that comes after the offset is delivered. -/
theorem chosen_of_not_sated (h : m.sated capacity cs = false) :
    m.chosen capacity cs = m.passed capacity cs := bounded_eq_self (passed_eq_nil h)

/-- Only what comes after the offset counts. -/
theorem chosen_of_passed_eq {cs' : List Candidate}
    (h : m.passed capacity cs' = m.passed capacity cs) :
    m.chosen capacity cs' = m.chosen capacity cs ∧ m.sated capacity cs' = m.sated capacity cs := by
  unfold chosen sated
  rw [h]
  exact ⟨rfl, rfl⟩

/-- One candidate more has come after the offset. -/
theorem chosen_of_passed_concat {cs' : List Candidate} (hs : m.sated capacity cs = false)
    (h : m.passed capacity cs' = m.passed capacity cs ++ [c]) :
    m.chosen capacity cs' = (if m.full (m.chosen capacity cs).length = true
        then m.chosen capacity cs else m.chosen capacity cs ++ [c]) ∧
      m.sated capacity cs' = (m.ask || m.full ((m.chosen capacity cs).length + 1)) := by
  rw [chosen_of_not_sated hs]
  unfold chosen sated
  rw [h, List.length_append, List.length_singleton]
  exact ⟨bounded_concat (passed_eq_nil hs) c, by simp⟩

@[simp] theorem chosen_nil : m.chosen capacity [] = [] :=
  (chosen_of_not_sated sated_nil).trans passed_nil

theorem answers_eq (id : QueryId) : m.answers capacity id cs =
    (m.chosen capacity cs).map fun c => ⟨id, m.output c.binding, c.expiration⟩ := rfl

@[simp] theorem answers_nil (id : QueryId) : m.answers capacity id [] = [] := by
  rw [answers_eq, chosen_nil, List.map_nil]

theorem tells_output (m : Modifiers) (id : QueryId) (c : Candidate) :
    m.Tells id c ⟨id, m.output c.binding, c.expiration⟩ where
  query := rfl
  expiration := rfl
  asked hask := if_pos hask
  constructed hask template hconstruct := by
    unfold output
    rw [hask, hconstruct]
    rfl
  selected hask hconstruct := by
    refine ⟨m.projection.apply c.binding, ?_, fun v => Projection.lookup_apply⟩
    unfold output
    rw [hask, hconstruct]
    rfl

/-- Each solution tells of the candidate that it is sent for. -/
theorem tells_answers (id : QueryId) :
    List.Forall₂ (m.Tells id) (m.chosen capacity cs) (m.answers capacity id cs) := by
  rw [answers_eq, List.forall₂_map_right_iff]
  exact List.forall₂_same.2 fun c _ => m.tells_output id c

end Modifiers

/-! ### Candidate by candidate -/

/-- What a verdict sends to the subscriber. -/
def Verdict.sent : Verdict → List Solution
  | .delivered solution _ => [solution]
  | _ => []

/-- The query is over. -/
def Verdict.ends : Verdict → Bool
  | .suppressed => false
  | .delivered _ last => last
  | .exhausted => true

namespace Registered

variable {q : Registered} {m : Modifiers} {capacity : Nat} {cs : List Candidate} {c : Candidate}

/-- The record of a query with these modifiers that has been offered these candidates. -/
structure Reflects (q : Registered) (m : Modifiers) (capacity : Nat) (cs : List Candidate) :
    Prop where
  modifiers : q.modifiers = m
  memory : q.memory.Recalls capacity ((m.fresh capacity cs).map m.key) m.distinctness
  skipped : q.skipped = min (m.offset.getD 0) (m.fresh capacity cs).length
  delivered : q.delivered = (m.chosen capacity cs).length

theorem reflects_new (id : QueryId) (query : Query) (analysis : Analysis) (expiration : Expiration)
    (now capacity : Nat) :
    (Registered.new id query analysis expiration now capacity).Reflects query.modifiers capacity
      [] where
  modifiers := rfl
  memory := Memory.recalls_ofDistinctness _ _
  skipped := (Nat.min_zero _).symm
  delivered := by
    rw [Modifiers.chosen_nil]
    rfl

theorem limitReached_eq (q : Registered) : q.limitReached = q.modifiers.full q.delivered := by
  unfold limitReached Modifiers.full
  cases q.modifiers.limit <;> rfl

theorem skips_eq (q : Registered) : q.skips = decide (q.skipped < q.modifiers.offset.getD 0) := by
  unfold skips
  cases q.modifiers.offset <;> simp

/-- The verdict on a candidate that comes after the offset. -/
def conclude (q : Registered) (c : Candidate) : Verdict × Registered :=
  if q.limitReached then (.exhausted, q)
  else
    let q := { q with delivered := q.delivered + 1 }
    (.delivered (q.solution c) (q.modifiers.ask || q.limitReached), q)

/-- The query with the key of a candidate in its memory. -/
def recalling (q : Registered) (c : Candidate) : Registered :=
  { q with memory := (q.memory.accept (q.modifiers.key c)).2 }

/-- The verdict on a candidate that passes the filters. -/
theorem offer_of_keeps (hkeeps : q.modifiers.keeps c = true) : q.offer c =
    if (!(q.memory.accept (q.modifiers.key c)).1) = true then (.suppressed, q.recalling c)
    else if q.skips = true then
      (.suppressed, { q.recalling c with skipped := q.skipped + 1 })
    else (q.recalling c).conclude c := by
  unfold offer
  rw [if_neg (by simpa [Modifiers.keeps] using hkeeps)]
  rfl

theorem offer_of_not_keeps (hkeeps : ¬ q.modifiers.keeps c = true) : q.offer c = (.suppressed, q) :=
  if_pos (by simpa [Modifiers.keeps] using hkeeps)

/-- The verdict is right if what has been offered is this, and then the candidate. -/
structure Rules (v : Verdict × Registered) (m : Modifiers) (capacity : Nat) (id : QueryId)
    (cs : List Candidate) (c : Candidate) : Prop where
  reflects : v.2.Reflects m capacity (cs ++ [c])
  answers : m.answers capacity id (cs ++ [c]) = m.answers capacity id cs ++ v.1.sent
  sated : m.sated capacity (cs ++ [c]) = v.1.ends

/-- A candidate that does not come after the offset is rightly suppressed. -/
theorem rules_suppressed (hs : m.sated capacity cs = false)
    (hmemory : q.memory.Recalls capacity ((m.fresh capacity (cs ++ [c])).map m.key) m.distinctness)
    (hmodifiers : q.modifiers = m)
    (hskipped : q.skipped = min (m.offset.getD 0) (m.fresh capacity (cs ++ [c])).length)
    (hdelivered : q.delivered = (m.chosen capacity cs).length)
    (hpassed : m.passed capacity (cs ++ [c]) = m.passed capacity cs) :
    Rules (.suppressed, q) m capacity q.id cs c := by
  obtain ⟨hchosen, hsated⟩ := Modifiers.chosen_of_passed_eq hpassed
  refine ⟨⟨hmodifiers, hmemory, hskipped, hchosen ▸ hdelivered⟩, ?_, hsated.trans hs⟩
  rw [Modifiers.answers_eq, hchosen]
  exact (List.append_nil _).symm

/-- One that comes after the offset is delivered, if the limit admits it. -/
theorem rules_conclude (hs : m.sated capacity cs = false)
    (hmemory : q.memory.Recalls capacity ((m.fresh capacity (cs ++ [c])).map m.key) m.distinctness)
    (hmodifiers : q.modifiers = m)
    (hskipped : q.skipped = min (m.offset.getD 0) (m.fresh capacity (cs ++ [c])).length)
    (hdelivered : q.delivered = (m.chosen capacity cs).length)
    (hpassed : m.passed capacity (cs ++ [c]) = m.passed capacity cs ++ [c]) :
    Rules (q.conclude c) m capacity q.id cs c := by
  subst hmodifiers
  obtain ⟨hchosen, hsated⟩ := Modifiers.chosen_of_passed_concat hs hpassed
  rw [← hdelivered] at hchosen hsated
  unfold conclude
  rw [limitReached_eq]
  split
  · next hfull =>
    rw [if_pos hfull] at hchosen
    refine ⟨⟨rfl, hmemory, hskipped, hchosen ▸ hdelivered⟩, ?_, hsated.trans ?_⟩
    · rw [Modifiers.answers_eq, hchosen]
      exact (List.append_nil _).symm
    · obtain ⟨limit, hlimit, hle⟩ := Modifiers.full_iff.1 hfull
      rw [Modifiers.full_iff.2 ⟨limit, hlimit, by omega⟩, Bool.or_true]
      rfl
  · next hmore =>
    rw [if_neg hmore] at hchosen
    refine ⟨⟨rfl, hmemory, hskipped, ?_⟩, ?_, hsated.trans ?_⟩
    · rw [hchosen, List.length_append, ← hdelivered]
      rfl
    · rw [Modifiers.answers_eq, hchosen, List.map_append]
      rfl
    · dsimp only
      rw [limitReached_eq]
      rfl

/-- A candidate that a query is offered comes to the same as one more in the list. -/
theorem Reflects.offer (h : q.Reflects m capacity cs) (hs : m.sated capacity cs = false)
    (c : Candidate) : Rules (q.offer c) m capacity q.id cs c := by
  obtain rfl := h.modifiers
  obtain ⟨hfresh, hmemory⟩ := h.memory.accept (q.modifiers.key c)
  have hconcat := q.modifiers.fresh_concat capacity cs c
  by_cases hkeeps : q.modifiers.keeps c = true
  · rw [offer_of_keeps hkeeps]
    dsimp only [recalling]
    by_cases hin : q.modifiers.key c ∈ q.modifiers.distinctness.remembered capacity
        ((q.modifiers.fresh capacity cs).map q.modifiers.key)
    · rw [if_neg fun h => h.2 hin] at hconcat
      rw [if_pos hin] at hmemory
      rw [if_pos (by simp [hfresh, hin])]
      refine rules_suppressed hs (hconcat ▸ hmemory) rfl (hconcat ▸ h.skipped) h.delivered ?_
      rw [Modifiers.passed, hconcat]
      rfl
    · rw [if_pos ⟨hkeeps, hin⟩] at hconcat
      rw [if_neg hin, ← List.map_singleton, ← List.map_append, ← hconcat] at hmemory
      rw [if_neg (by simp [hfresh, hin]), skips_eq]
      have hlength := congrArg List.length hconcat
      rw [List.length_append, List.length_singleton] at hlength
      have hskipped := h.skipped
      by_cases hskip : q.skipped < q.modifiers.offset.getD 0
      · rw [if_pos (decide_eq_true hskip)]
        refine rules_suppressed hs hmemory rfl (by dsimp only; omega) h.delivered ?_
        unfold Modifiers.passed
        rw [List.drop_of_length_le (by omega), List.drop_of_length_le (by omega)]
      · rw [if_neg (by simpa using hskip)]
        refine rules_conclude hs hmemory rfl (by dsimp only; omega) h.delivered ?_
        unfold Modifiers.passed
        rw [hconcat, List.drop_append_of_le_length (by omega)]
  · rw [offer_of_not_keeps hkeeps]
    rw [if_neg fun h => hkeeps h.1] at hconcat
    refine rules_suppressed hs (hconcat ▸ h.memory) rfl (hconcat ▸ h.skipped) h.delivered ?_
    rw [Modifiers.passed, hconcat]
    rfl

end Registered

end StandingQuery
