import StandingQuery.QueryIndex.History

/-! What a delivery changes.

Delivering to a query changes its counters and its memory and nothing else about it
(`settled_deliver`). The subscribers of a history add to the log and deactivate their
own query at most, so a delivery to one query is nothing to the others
(`Concerns`). A query that takes solutions as they come is sent every candidate that is
valid and passes its filters, in order, until it is deactivated (`deliver_plain`). -/
namespace StandingQuery
open Std

theorem contains_congr {a b : Active} {id : QueryId} (h : id ∈ a ↔ id ∈ b) :
    a.contains id = b.contains id := by
  rw [Bool.eq_iff_iff, ← ExtTreeSet.mem_iff_contains, ← ExtTreeSet.mem_iff_contains]
  exact h

theorem contains_eq_false {a : Active} {id : QueryId} (h : id ∉ a) : a.contains id = false :=
  Bool.eq_false_iff.2 fun hin => h (ExtTreeSet.mem_iff_contains.2 hin)

/-- The query takes solutions as they come: no memory, no bounds, no short answer. -/
structure Modifiers.Plain (m : Modifiers) : Prop where
  distinctness : m.distinctness = .none
  limit : m.limit = none
  offset : m.offset = none
  ask : m.ask = false

/-- The candidate passes all filters. -/
def Modifiers.keeps (m : Modifiers) (c : Candidate) : Bool := m.filters.all fun keep => keep c.binding

/-- What a query with these modifiers, if it takes solutions as they come, is sent for candidates. -/
def Modifiers.sent (m : Modifiers) (id : QueryId) (cs : List Candidate) : List Solution :=
  (cs.filter m.keeps).map fun c => ⟨id, m.output c.binding, c.expiration⟩

namespace Registered

variable {q : Registered} {c : Candidate} {now : Nat} {σ : Type} {receive : Subscriber σ}

/-- The query without what deliveries change. -/
def settled (q : Registered) : Registered := { q with memory := .none, skipped := 0, delivered := 0 }

/-- The solution that a candidate is delivered as. -/
def solution (q : Registered) (c : Candidate) : Solution :=
  ⟨q.id, q.modifiers.output c.binding, c.expiration⟩

theorem settled_offer : (q.offer c).2.settled = q.settled := by
  unfold offer
  split
  · rfl
  · dsimp only
    split
    · rfl
    · split
      · rfl
      · split <;> rfl

theorem memory_offer (h : q.memory = .none) : (q.offer c).2.memory = .none := by
  unfold offer
  split
  · exact h
  · simp only [h, Memory.accept]
    split
    · rfl
    · split
      · rfl
      · split <;> rfl

/-- What is delivered is the solution of the candidate. -/
theorem offer_delivered {s : Solution} {last : Bool} {r : Registered}
    (h : q.offer c = (.delivered s last, r)) : s = q.solution c ∧ q.modifiers.keeps c = true := by
  unfold offer at h
  split at h
  · cases h
  · next hkeeps =>
    dsimp only at h
    split at h
    · cases h
    · split at h
      · cases h
      · split at h
        · cases h
        · cases h
          exact ⟨rfl, by simpa [Modifiers.keeps] using hkeeps⟩

theorem offer_plain (hplain : q.modifiers.Plain) (hmemory : q.memory = .none) :
    q.offer c = if q.modifiers.keeps c
      then (.delivered (q.solution c) false, { q with delivered := q.delivered + 1 })
      else (.suppressed, q) := by
  unfold offer Modifiers.keeps
  by_cases hkeeps : q.modifiers.filters.all (fun keep => keep c.binding)
  · simp [hkeeps, hmemory, Memory.accept, skips, limitReached, hplain.offset, hplain.limit,
      hplain.ask, solution]
  · simp [hkeeps]

/-! ### Candidate by candidate -/

theorem deliver_passed {active : Active}
    (h : (c.expiration.expiredAt now || !active.contains q.id) = true) (s : σ)
    (cs : List Candidate) :
    q.deliver receive now active s (c :: cs) = q.deliver receive now active s cs :=
  if_pos h

theorem deliver_offered {active : Active}
    (h : ¬ (c.expiration.expiredAt now || !active.contains q.id) = true) (s : σ)
    (cs : List Candidate) : q.deliver receive now active s (c :: cs) =
      match q.offer c with
      | (.suppressed, q) => q.deliver receive now active s cs
      | (.exhausted, q) => { query := q, active := active.erase q.id, state := s, satisfied := true }
      | (.delivered x last, q) =>
        let r := receive active s x
        if r.failed then { query := q, active := r.active, state := r.state, failed := true }
        else if last then
          { query := q, active := r.active.erase q.id, state := r.state, satisfied := true }
        else q.deliver receive now r.active r.state cs :=
  if_neg h

/-- A delivery does not fail if no reaction of the subscriber does, and keeps of the state what
all reactions keep. -/
theorem deliver_succeeds {P : σ → Prop}
    (h : ∀ active s x, P s → (receive active s x).failed = false ∧ P (receive active s x).state)
    (q : Registered) (now : Nat) (active : Active) {s : σ} (hs : P s) (cs : List Candidate) :
    (q.deliver receive now active s cs).failed = false ∧
      P (q.deliver receive now active s cs).state := by
  induction cs generalizing q active s with
  | nil => exact ⟨rfl, hs⟩
  | cons c rest ih =>
    by_cases hpassed : (c.expiration.expiredAt now || !active.contains q.id) = true
    · rw [deliver_passed hpassed]
      exact ih q active hs
    · rw [deliver_offered hpassed]
      cases q.offer c with
      | mk verdict r =>
        cases verdict with
        | suppressed => exact ih r active hs
        | exhausted => exact ⟨rfl, hs⟩
        | delivered x last =>
          obtain ⟨hreaction, hstate⟩ := h active s x hs
          dsimp only
          rw [hreaction, if_neg Bool.false_ne_true]
          cases last with
          | true => exact ⟨rfl, hstate⟩
          | false => exact ih r _ hstate

theorem settled_deliver (q : Registered) (active : Active) (state : σ) (cs : List Candidate) :
    (q.deliver receive now active state cs).query.settled = q.settled := by
  induction cs generalizing q active state with
  | nil => rfl
  | cons c rest ih =>
    have hoffer := settled_offer (q := q) (c := c)
    rw [deliver]
    split
    · exact ih _ _ _
    · split
      · next heq =>
        rw [heq] at hoffer
        rw [ih]
        exact hoffer
      · next heq =>
        rw [heq] at hoffer
        exact hoffer
      · next heq =>
        rw [heq] at hoffer
        dsimp only
        split
        · exact hoffer
        · split
          · exact hoffer
          · rw [ih]
            exact hoffer

theorem memory_deliver (q : Registered) (active : Active) (state : σ) (cs : List Candidate)
    (h : q.memory = .none) : (q.deliver receive now active state cs).query.memory = .none := by
  induction cs generalizing q active state with
  | nil => exact h
  | cons c rest ih =>
    have hoffer := memory_offer (c := c) h
    rw [deliver]
    split
    · exact ih _ _ _ h
    · split
      · next heq =>
        rw [heq] at hoffer
        exact ih _ _ _ hoffer
      · next heq =>
        rw [heq] at hoffer
        exact hoffer
      · next heq =>
        rw [heq] at hoffer
        dsimp only
        split
        · exact hoffer
        · split
          · exact hoffer
          · exact ih _ _ _ hoffer

theorem id_of_settled {r : Registered} (h : r.settled = q.settled) : r.id = q.id :=
  (congrArg Registered.id h : r.settled.id = q.settled.id)

theorem id_deliver (q : Registered) (active : Active) (state : σ) (cs : List Candidate) :
    (q.deliver receive now active state cs).query.id = q.id :=
  id_of_settled (settled_deliver q active state cs)

theorem pattern_of_settled {r : Registered} (h : r.settled = q.settled) : r.pattern = q.pattern :=
  (congrArg Registered.pattern h : r.settled.pattern = q.settled.pattern)

theorem modifiers_of_settled {r : Registered} (h : r.settled = q.settled) :
    r.modifiers = q.modifiers :=
  (congrArg Registered.modifiers h : r.settled.modifiers = q.settled.modifiers)

theorem analysis_of_settled {r : Registered} (h : r.settled = q.settled) :
    r.analysis = q.analysis :=
  (congrArg Registered.analysis h : r.settled.analysis = q.settled.analysis)

theorem expiration_of_settled {r : Registered} (h : r.settled = q.settled) :
    r.expiration = q.expiration :=
  (congrArg Registered.expiration h : r.settled.expiration = q.settled.expiration)

end Registered

/-! ### The subscribers of a history -/

namespace QueryIndex.Watched

/-- The quotas of the subscribers and the log of what they have received. -/
abbrev Inbox := ExtTreeMap QueryId Nat × List Solution

/-- Only the query `id` may have been deactivated, have used up its quota or been sent solutions. -/
structure Concerns (id : QueryId) (active active' : Active) (s s' : Inbox) : Prop where
  log : ∃ fresh, s'.2 = s.2 ++ fresh ∧ ∀ x ∈ fresh, x.query = id
  shrinks : ∀ i : QueryId, i ∈ active' → i ∈ active
  active : ∀ i : QueryId, i ≠ id → (i ∈ active' ↔ i ∈ active)
  quotas : ∀ i : QueryId, i ≠ id → s'.1[i]? = s.1[i]?
  unwatched : ∀ i : QueryId, s.1[i]? = none → s'.1[i]? = none

variable {id : QueryId} {active active' active'' : Active} {s s' s'' : Inbox}

theorem Concerns.refl : Concerns id active active s s where
  log := ⟨[], by simp, by simp⟩
  shrinks _ h := h
  active _ _ := Iff.rfl
  quotas _ _ := rfl
  unwatched _ h := h

theorem Concerns.trans (h : Concerns id active active' s s')
    (h' : Concerns id active' active'' s' s'') : Concerns id active active'' s s'' where
  log := by
    obtain ⟨fresh, he, hfresh⟩ := h.log
    obtain ⟨fresh', he', hfresh'⟩ := h'.log
    refine ⟨fresh ++ fresh', by rw [he', he, List.append_assoc], fun x hx => ?_⟩
    rcases List.mem_append.1 hx with hx | hx
    · exact hfresh x hx
    · exact hfresh' x hx
  shrinks i hi := h.shrinks i (h'.shrinks i hi)
  active i hi := (h'.active i hi).trans (h.active i hi)
  quotas i hi := (h'.quotas i hi).trans (h.quotas i hi)
  unwatched i hi := h'.unwatched i (h.unwatched i hi)

theorem Concerns.erase (h : Concerns id active active' s s') :
    Concerns id active (active'.erase id) s s' where
  log := h.log
  shrinks i hi := h.shrinks i (ExtTreeSet.mem_of_mem_erase hi)
  active i hi := by
    rw [ExtTreeSet.mem_erase, ne_eq, Std.compare_eq_iff_eq, h.active i hi]
    exact and_iff_right fun e => hi e.symm
  quotas := h.quotas
  unwatched := h.unwatched

theorem concerns_receive (active : Active) (s : Inbox) (x : Solution) :
    Concerns x.query active (receive active s x).active s (receive active s x).state := by
  unfold receive
  dsimp only
  split
  · next left hleft =>
    constructor
    · exact ⟨[x], rfl, by simp⟩
    · intro i hi
      split at hi
      · exact ExtTreeSet.mem_of_mem_erase hi
      · exact hi
    · intro i hi
      split
      · rw [ExtTreeSet.mem_erase, ne_eq, Std.compare_eq_iff_eq]
        exact and_iff_right fun e => hi e.symm
      · rfl
    · intro i hi
      dsimp only
      rw [ExtTreeMap.getElem?_insert, if_neg (by simpa using Ne.symm hi)]
    · intro i hi
      dsimp only
      rw [ExtTreeMap.getElem?_insert]
      split
      · next heq =>
        rw [Std.compare_eq_iff_eq] at heq
        rw [heq, hi] at hleft
        cases hleft
      · exact hi
  · exact ⟨⟨[x], rfl, by simp⟩, fun _ hi => hi, fun _ _ => Iff.rfl, fun _ _ => rfl, fun _ hi => hi⟩

theorem receive_failed (active : Active) (s : Inbox) (x : Solution) :
    (receive active s x).failed = false := by
  unfold receive
  dsimp only
  split <;> rfl

/-- A delivery to one query is nothing to the others. -/
theorem concerns_deliver (q : Registered) (now : Nat) (active : Active) (s : Inbox)
    (cs : List Candidate) :
    Concerns q.id active (q.deliver receive now active s cs).active s
      (q.deliver receive now active s cs).state := by
  induction cs generalizing q active s with
  | nil => exact .refl
  | cons c rest ih =>
    have hoffer := Registered.settled_offer (q := q) (c := c)
    rw [Registered.deliver]
    split
    · exact ih q active s
    · split
      · next r heq =>
        rw [heq] at hoffer
        have := ih r active s
        rwa [Registered.id_of_settled hoffer] at this
      · next r heq =>
        rw [heq] at hoffer
        dsimp only
        rw [Registered.id_of_settled hoffer]
        exact Concerns.refl.erase
      · next solution last r heq =>
        have hx := (Registered.offer_delivered heq).1
        rw [heq] at hoffer
        have hfirst := concerns_receive active s solution
        have hq : solution.query = q.id := congrArg Solution.query hx
        rw [hq] at hfirst
        dsimp only
        rw [receive_failed, if_neg (by simp), Registered.id_of_settled hoffer]
        split
        · exact hfirst.erase
        · have := ih r (receive active s solution).active (receive active s solution).state
          rw [Registered.id_of_settled hoffer] at this
          exact hfirst.trans this

theorem deliver_failed (q : Registered) (now : Nat) (active : Active) (s : Inbox)
    (cs : List Candidate) : (q.deliver receive now active s cs).failed = false :=
  (Registered.deliver_succeeds (P := fun _ => True) (fun active s x _ =>
    ⟨receive_failed active s x, trivial⟩) q now active trivial cs).1

/-- A query that is over is not active any more. -/
theorem not_active_of_satisfied (q : Registered) (now : Nat) (active : Active) (s : Inbox)
    (cs : List Candidate) {d : Delivery Inbox} (hd : q.deliver receive now active s cs = d)
    (h : d.satisfied = true) : q.id ∉ d.active := by
  induction cs generalizing q active s with
  | nil =>
    rw [← hd] at h
    cases h
  | cons c rest ih =>
    have hoffer := Registered.id_of_settled (Registered.settled_offer (q := q) (c := c))
    rw [Registered.deliver] at hd
    split at hd
    · exact ih q active s hd
    · split at hd
      · next r heq =>
        rw [heq] at hoffer
        exact hoffer ▸ ih r active s hd
      · next r heq =>
        rw [heq] at hoffer
        rw [← hd, ← hoffer]
        simp
      · next solution last r heq =>
        rw [heq] at hoffer
        dsimp only at hd
        rw [receive_failed, if_neg (by simp)] at hd
        split at hd
        · rw [← hd, ← hoffer]
          simp
        · exact hoffer ▸ ih r _ _ hd

/-- Nothing is delivered to a query that is not active. -/
theorem deliver_inactive (q : Registered) (now : Nat) (hactive : q.id ∉ active)
    (cs : List Candidate) : (q.deliver receive now active s cs).active = active ∧
      (q.deliver receive now active s cs).state = s := by
  have hcontains : active.contains q.id = false := contains_eq_false hactive
  induction cs with
  | nil => exact ⟨rfl, rfl⟩
  | cons c rest ih =>
    rw [Registered.deliver, if_pos (by simp [hcontains])]
    exact ih

/-- A subscriber keeps what it receives, and either deactivates its query or changes nothing. -/
theorem receive_cases (active : Active) (s : Inbox) (x : Solution) :
    (receive active s x).state.2 = s.2 ++ [x] ∧
      (x.query ∉ (receive active s x).active ∨ (receive active s x).active = active) := by
  unfold receive
  dsimp only
  split
  · refine ⟨rfl, ?_⟩
    dsimp only
    split
    · exact .inl (by simp)
    · exact .inr rfl
  · exact ⟨rfl, .inr rfl⟩

/-- A subscriber without a quota keeps what it receives and changes nothing. -/
theorem receive_unwatched {x : Solution} (hquota : s.1[x.query]? = none) (active : Active) :
    receive active s x = { active, state := (s.1, s.2 ++ [x]) } := by
  unfold receive
  simp [hquota]

/-- A query that takes solutions as they come is sent candidates in order: those that are
valid and pass its filters, and all of them if it is still active afterwards. -/
theorem deliver_plain {q : Registered} (hplain : q.modifiers.Plain) (hmemory : q.memory = .none)
    (now : Nat) (hactive : q.id ∈ active) (cs : List Candidate) :
    ∃ fresh, (q.deliver receive now active s cs).state.2 = s.2 ++ fresh ∧
      fresh <+: q.modifiers.sent q.id (cs.filter fun c => !c.expiration.expiredAt now) ∧
      (q.id ∈ (q.deliver receive now active s cs).active →
        fresh = q.modifiers.sent q.id (cs.filter fun c => !c.expiration.expiredAt now) ∧
        (q.deliver receive now active s cs).satisfied = false) := by
  induction cs generalizing q s with
  | nil => exact ⟨[], by simp [Registered.deliver], List.nil_prefix, fun _ => ⟨rfl, rfl⟩⟩
  | cons c rest ih =>
    rw [Registered.deliver]
    by_cases hexpired : c.expiration.expiredAt now = true
    · rw [if_pos (by simp [hexpired]), List.filter_cons_of_neg (by simp [hexpired])]
      exact ih hplain hmemory hactive
    · have halive : c.expiration.expiredAt now = false := by simpa using hexpired
      have hcontains : active.contains q.id = true := ExtTreeSet.mem_iff_contains.1 hactive
      rw [if_neg (by simp [halive, hcontains]), Registered.offer_plain hplain hmemory,
        List.filter_cons_of_pos (by simp [halive])]
      by_cases hkeeps : q.modifiers.keeps c = true
      · obtain ⟨hlog, hreaction⟩ := receive_cases active s (q.solution c)
        have hsent : ∀ cs, q.modifiers.sent q.id (c :: cs) =
            q.solution c :: q.modifiers.sent q.id cs := by
          intro cs
          unfold Modifiers.sent
          rw [List.filter_cons_of_pos hkeeps]
          rfl
        rw [if_pos hkeeps, hsent]
        dsimp only
        rw [receive_failed, if_neg (by simp), if_neg (by simp)]
        rcases hreaction with hgone | hsame
        · obtain ⟨hact, hstate⟩ := deliver_inactive (s := (receive active s (q.solution c)).state)
            { q with delivered := q.delivered + 1 } now hgone rest
          refine ⟨[q.solution c], by rw [hstate, hlog], ?_, fun h => absurd (hact ▸ h) hgone⟩
          exact List.cons_prefix_cons.2 ⟨rfl, List.nil_prefix⟩
        · rw [hsame]
          obtain ⟨fresh, hstate, hbegins, hall⟩ := ih (q := { q with delivered := q.delivered + 1 })
            (s := (receive active s (q.solution c)).state) hplain hmemory hactive
          refine ⟨q.solution c :: fresh, by rw [hstate, hlog, List.append_assoc]; rfl,
            List.cons_prefix_cons.2 ⟨rfl, hbegins⟩, fun h => ?_⟩
          obtain ⟨hfresh, hsatisfied⟩ := hall h
          exact ⟨congrArg _ hfresh, hsatisfied⟩
      · have hsent : ∀ cs, q.modifiers.sent q.id (c :: cs) = q.modifiers.sent q.id cs := by
          intro cs
          unfold Modifiers.sent
          rw [List.filter_cons_of_neg hkeeps]
        rw [if_neg hkeeps, hsent]
        exact ih hplain hmemory hactive

/-- Without a quota it is still active afterwards. -/
theorem active_deliver_plain {q : Registered} (hplain : q.modifiers.Plain)
    (hmemory : q.memory = .none) (now : Nat) (active : Active) (hquota : s.1[q.id]? = none)
    (cs : List Candidate) : (q.deliver receive now active s cs).active = active := by
  induction cs generalizing q s with
  | nil => rfl
  | cons c rest ih =>
    rw [Registered.deliver]
    split
    · exact ih hplain hmemory hquota
    · rw [Registered.offer_plain hplain hmemory]
      by_cases hkeeps : q.modifiers.keeps c = true
      · rw [if_pos hkeeps]
        dsimp only
        rw [receive_failed, if_neg (by simp), if_neg (by simp), receive_unwatched hquota]
        exact ih (q := { q with delivered := q.delivered + 1 }) hplain hmemory hquota
      · rw [if_neg hkeeps]
        exact ih hplain hmemory hquota

end QueryIndex.Watched

end StandingQuery
