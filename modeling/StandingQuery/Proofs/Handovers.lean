import StandingQuery.Proofs.Modifiers
import StandingQuery.Proofs.Following

/-! A delivery, candidate by candidate.

`Registered.handovers` lists the candidates of a delivery that are handed to the query, each
with where it leaves the query: those that have not expired, in order, for as long as the
query is active (`Registered.candidates_handovers`). If the subscriber is inert, the query
is afterwards where its modifiers are after so many candidates more
(`Delivery.Reflects.deliver`). Over several deliveries, *batches* of candidates, all valid
candidates are handed over up to the one with which the modifiers are sated
(`Batch.Handed.single`, `Batch.Handed.append`). -/
namespace StandingQuery
open Std

/-! ### Handing over -/

/-- A candidate that is handed to a query, and where its delivery leaves the query. -/
structure Handover (σ : Type) where
  candidate : Candidate
  outcome : Delivery σ

namespace Registered

/-- The candidates of a delivery that are handed to the query, one by one. -/
def handovers {σ : Type} (receive : Subscriber σ) (now : Nat) :
    Registered → Active → σ → List Candidate → List (Handover σ)
  | _, _, _, [] => []
  | query, active, state, c :: rest =>
    if c.expiration.expiredAt now || !active.contains query.id then
      query.handovers receive now active state rest
    else
      let d := query.deliver receive now active state [c]
      ⟨c, d⟩ :: if d.satisfied || d.failed then []
        else d.query.handovers receive now d.active d.state rest

variable {σ : Type} {receive : Subscriber σ} {now : Nat} {q : Registered} {active : Active}
variable {state : σ} {c : Candidate} {cs : List Candidate}

theorem handovers_passed (h : (c.expiration.expiredAt now || !active.contains q.id) = true) :
    q.handovers receive now active state (c :: cs) = q.handovers receive now active state cs :=
  if_pos h

theorem handovers_offered (h : ¬ (c.expiration.expiredAt now || !active.contains q.id) = true) :
    q.handovers receive now active state (c :: cs) =
      let d := q.deliver receive now active state [c]
      ⟨c, d⟩ :: if d.satisfied || d.failed then []
        else d.query.handovers receive now d.active d.state cs :=
  if_neg h

/-- A delivery goes on where the delivery of its first candidate has ended. -/
theorem deliver_cons (q : Registered) (active : Active) (state : σ) (c : Candidate)
    (cs : List Candidate) : q.deliver receive now active state (c :: cs) =
      let d := q.deliver receive now active state [c]
      if d.satisfied || d.failed then d else d.query.deliver receive now d.active d.state cs := by
  by_cases hpassed : (c.expiration.expiredAt now || !active.contains q.id) = true
  · rw [deliver_passed hpassed, deliver_passed hpassed]
    rfl
  · rw [deliver_offered hpassed, deliver_offered hpassed]
    cases q.offer c with
    | mk verdict r =>
      cases verdict with
      | suppressed => rfl
      | exhausted => rfl
      | delivered x last =>
        dsimp only
        split
        · rfl
        · cases last <;> rfl

/-- A delivery leaves the query where the last of its handovers does. -/
theorem deliver_eq_outcome (q : Registered) (active : Active) (state : σ) (cs : List Candidate) :
    q.deliver receive now active state cs =
      ((q.handovers receive now active state cs).getLast?.map Handover.outcome).getD
        { query := q, active, state } := by
  induction cs generalizing q active state with
  | nil => rfl
  | cons c cs ih =>
    by_cases hpassed : (c.expiration.expiredAt now || !active.contains q.id) = true
    · rw [deliver_passed hpassed, handovers_passed hpassed]
      exact ih q active state
    · rw [deliver_cons, handovers_offered hpassed]
      dsimp only
      generalize q.deliver receive now active state [c] = d
      split
      · rfl
      · next hmore =>
        rw [ih, List.getLast?_cons, Option.map_some, Option.getD_some]
        cases (d.query.handovers receive now d.active d.state cs).getLast? with
        | none =>
          obtain ⟨query, active, state, satisfied, failed⟩ := d
          obtain ⟨rfl, rfl⟩ : satisfied = false ∧ failed = false := by simpa using hmore
          rfl
        | some h => rfl

theorem handovers_inactive (h : q.id ∉ active) (cs : List Candidate) :
    q.handovers receive now active state cs = [] := by
  induction cs with
  | nil => rfl
  | cons c cs ih => rw [handovers_passed (by simp [contains_eq_false h]), ih]

/-- What is handed over are the candidates that have not expired, in order: all of them, if the
query is still active afterwards. -/
theorem candidates_handovers (receive : Subscriber σ) (now : Nat) (q : Registered) (active : Active)
    (state : σ) (cs : List Candidate) :
    let d := q.deliver receive now active state cs
    let handed := (q.handovers receive now active state cs).map Handover.candidate
    handed <+: cs.filter (fun c => !c.expiration.expiredAt now) ∧
      (d.satisfied = false → d.failed = false → q.id ∈ d.active →
        handed = cs.filter fun c => !c.expiration.expiredAt now) := by
  induction cs generalizing q active state with
  | nil => exact ⟨List.nil_prefix, fun _ _ _ => rfl⟩
  | cons c cs ih =>
    by_cases hexpired : c.expiration.expiredAt now = true
    · rw [handovers_passed (by simp [hexpired]), deliver_passed (by simp [hexpired]),
        List.filter_cons_of_neg (by simp [hexpired])]
      exact ih q active state
    · by_cases hactive : q.id ∈ active
      · have hoffered : ¬ (c.expiration.expiredAt now || !active.contains q.id) = true := by
          simpa [hexpired] using hactive
        have hid : (q.deliver receive now active state [c]).query.id = q.id := id_deliver ..
        rw [handovers_offered hoffered, deliver_cons, List.filter_cons_of_pos (by simp [hexpired])]
        dsimp only
        rw [List.map_cons]
        generalize q.deliver receive now active state [c] = d at hid ⊢
        obtain ⟨hbegins, hall⟩ := ih d.query d.active d.state
        split
        · next hover =>
          refine ⟨List.cons_prefix_cons.2 ⟨rfl, List.nil_prefix⟩, fun hmore hfine => ?_⟩
          rw [hmore, hfine] at hover
          cases hover
        · exact ⟨List.cons_prefix_cons.2 ⟨rfl, hbegins⟩, fun hmore hfine hstill =>
            congrArg _ (hall hmore hfine (hid ▸ hstill))⟩
      · dsimp only
        rw [deliver_eq_outcome, handovers_inactive hactive]
        exact ⟨List.nil_prefix, fun _ _ hstill => absurd hstill hactive⟩

end Registered

/-! ### Inert subscribers -/

open QueryIndex Watched

variable {id : QueryId} {m : Modifiers} {capacity now : Nat} {q : Registered} {active : Active}
variable {s : Inbox} {cs : List Candidate} {c : Candidate} {earlier : List Solution}
variable {hs hs' : List (Handover Inbox)}

/-- What a verdict sends is for the query. -/
theorem Registered.sentTo_offer (q : Registered) (c : Candidate) :
    sentTo q.id (q.offer c).1.sent = (q.offer c).1.sent := by
  refine sentTo_of_all fun x hx => ?_
  cases ho : q.offer c with
  | mk verdict r =>
    rw [ho] at hx
    cases verdict with
    | suppressed => cases hx
    | exhausted => cases hx
    | delivered y last =>
      rw [List.mem_singleton.1 hx, (Registered.offer_delivered ho).1]
      rfl

/-- What becomes of a candidate that is handed over is in the verdict. -/
theorem Registered.deliver_one (hquota : s.1[q.id]? = none)
    (hpassed : ¬ (c.expiration.expiredAt now || !active.contains q.id) = true) :
    q.deliver receive now active s [c] =
      { query := (q.offer c).2
        active := if (q.offer c).1.ends then active.erase q.id else active
        state := (s.1, s.2 ++ (q.offer c).1.sent)
        satisfied := (q.offer c).1.ends } := by
  have hid := Registered.id_of_settled (Registered.settled_offer (q := q) (c := c))
  rw [Registered.deliver_offered hpassed]
  cases ho : q.offer c with
  | mk verdict r =>
    rw [ho] at hid
    cases verdict with
    | suppressed => simp [Registered.deliver, Verdict.sent, Verdict.ends]
    | exhausted => simp [Verdict.sent, Verdict.ends, show r.id = q.id from hid]
    | delivered x last =>
      obtain ⟨rfl, -⟩ := Registered.offer_delivered ho
      dsimp only
      rw [receive_unwatched hquota]
      cases last with
      | true => simp [Verdict.sent, Verdict.ends, show r.id = q.id from hid]
      | false => simp [Registered.deliver, Verdict.sent, Verdict.ends]

/-- Where a delivery stands with a query that has been handed these candidates, and had been sent
something earlier. -/
structure Delivery.Reflects (d : Delivery Inbox) (m : Modifiers) (capacity : Nat)
    (earlier : List Solution) (cs : List Candidate) : Prop where
  query : d.query.Reflects m capacity cs
  active : d.query.id ∈ d.active ↔ m.sated capacity cs = false
  quota : d.state.1[d.query.id]? = none
  sent : m.answers capacity d.query.id cs = earlier ++ sentTo d.query.id d.state.2
  satisfied : d.satisfied = m.sated capacity cs
  failed : d.failed = false

/-- A candidate that is handed to a query comes to the same as one more in the list. -/
theorem Delivery.Reflects.deliver_one
    (h : Delivery.Reflects ⟨q, active, s, false, false⟩ m capacity earlier cs)
    (hpassed : ¬ (c.expiration.expiredAt now || !active.contains q.id) = true) :
    (q.deliver receive now active s [c]).Reflects m capacity earlier (cs ++ [c]) := by
  have hid := Registered.id_of_settled (Registered.settled_offer (q := q) (c := c))
  have hactive := h.active.2 h.satisfied.symm
  have hsent := h.sent
  obtain ⟨hreflects, hanswers, hsated⟩ := h.query.offer h.satisfied.symm c
  rw [Registered.deliver_one h.quota hpassed]
  dsimp only at hid hactive hanswers hsent
  constructor
  · exact hreflects
  · dsimp only
    rw [hid, hsated]
    cases (q.offer c).1.ends with
    | true => simp
    | false => simp [hactive]
  · dsimp only
    rw [hid]
    exact h.quota
  · dsimp only
    rw [hid, hanswers, hsent, sentTo_append, Registered.sentTo_offer, List.append_assoc]
  · exact hsated.symm
  · rfl

/-- Each candidate is handed over while more is wanted, and leaves the query active if more is
wanted still. -/
def Handover.Chain (id : QueryId) (m : Modifiers) (capacity : Nat) :
    List Candidate → List (Handover Inbox) → Prop
  | _, [] => True
  | cs, h :: hs => m.sated capacity cs = false ∧
      (id ∈ h.outcome.active ↔ m.sated capacity (cs ++ [h.candidate]) = false) ∧
      Handover.Chain id m capacity (cs ++ [h.candidate]) hs

theorem Handover.Chain.append (h : Handover.Chain id m capacity cs hs)
    (h' : Handover.Chain id m capacity (cs ++ hs.map Handover.candidate) hs') :
    Handover.Chain id m capacity cs (hs ++ hs') := by
  induction hs generalizing cs with
  | nil =>
    rw [List.map_nil, List.append_nil] at h'
    exact h'
  | cons one hs ih =>
    rw [List.map_cons, List.append_cons] at h'
    exact ⟨h.1, h.2.1, ih h.2.2 h'⟩

theorem Handover.Chain.eq_nil (h : Handover.Chain id m capacity cs hs)
    (hsated : m.sated capacity cs = true) : hs = [] := by
  cases hs with
  | nil => rfl
  | cons one hs =>
    rw [h.1] at hsated
    cases hsated

/-- Each handover leaves the query active if more is wanted, and if it does not it is the last. -/
theorem Handover.Chain.split {earlier later : List (Handover Inbox)} {h : Handover Inbox}
    (hchain : Handover.Chain id m capacity cs (earlier ++ h :: later)) :
    (id ∈ h.outcome.active ↔
        m.sated capacity (cs ++ (earlier ++ [h]).map Handover.candidate) = false) ∧
      (id ∉ h.outcome.active → later = []) := by
  induction earlier generalizing cs with
  | nil =>
    obtain ⟨-, hactive, hrest⟩ := hchain
    refine ⟨hactive, fun hinactive => ?_⟩
    cases later with
    | nil => rfl
    | cons next later => exact absurd (hactive.2 hrest.1) hinactive
  | cons first earlier ih =>
    rw [List.cons_append, List.map_cons, List.append_cons]
    exact ih hchain.2.2

/-- Candidates that are handed to a query come to the same as so many more in the list. -/
theorem Delivery.Reflects.deliver
    (h : Delivery.Reflects ⟨q, active, s, false, false⟩ m capacity earlier cs) (now : Nat)
    (candidates : List Candidate) :
    let handed := q.handovers receive now active s candidates
    (q.deliver receive now active s candidates).Reflects m capacity earlier
        (cs ++ handed.map Handover.candidate) ∧
      Handover.Chain q.id m capacity cs handed := by
  induction candidates generalizing q active s cs with
  | nil =>
    refine ⟨?_, trivial⟩
    rw [Registered.handovers, List.map_nil, List.append_nil]
    exact h
  | cons c rest ih =>
    by_cases hpassed : (c.expiration.expiredAt now || !active.contains q.id) = true
    · rw [Registered.deliver_passed hpassed, Registered.handovers_passed hpassed]
      exact ih h
    · have hone := h.deliver_one hpassed
      have hid : (q.deliver receive now active s [c]).query.id = q.id := Registered.id_deliver ..
      rw [Registered.deliver_cons, Registered.handovers_offered hpassed]
      dsimp only
      generalize q.deliver receive now active s [c] = d at hone hid ⊢
      obtain ⟨query, active', s', satisfied, failed⟩ := d
      obtain rfl : failed = false := hone.failed
      dsimp only at hid ⊢
      cases satisfied with
      | true => exact ⟨hone, h.satisfied.symm, hid ▸ hone.active, trivial⟩
      | false =>
        obtain ⟨hrest, hchain⟩ := ih hone
        rw [List.append_assoc] at hrest
        exact ⟨hrest, h.satisfied.symm, hid ▸ hone.active, hid ▸ hchain⟩

/-! ### Batches -/

/-- What a delivery begins with. -/
structure Batch (σ : Type) where
  query : Registered
  now : Nat
  active : Active
  state : σ
  candidates : List Candidate

namespace Batch

/-- The candidates that are handed over. -/
def handovers (b : Batch Inbox) : List (Handover Inbox) :=
  b.query.handovers receive b.now b.active b.state b.candidates

/-- The candidates that have not expired. -/
def valid {σ : Type} (b : Batch σ) : List Candidate :=
  b.candidates.filter fun c => !c.expiration.expiredAt b.now

/-- What batches complete for a query. -/
def completed {σ : Type} (bs : List (Batch σ)) : List Candidate := bs.flatMap valid

/-- What batches hand to a query. -/
def handed (bs : List (Batch Inbox)) : List Candidate :=
  (bs.flatMap handovers).map Handover.candidate

variable {bs bs' : List (Batch Inbox)}

theorem completed_append : completed (bs ++ bs') = completed bs ++ completed bs' :=
  List.flatMap_append

theorem handed_nil : handed [] = [] := rfl

theorem handed_append : handed (bs ++ bs') = handed bs ++ handed bs' := by
  unfold handed
  rw [List.flatMap_append, List.map_append]

/-- Batches for a query that has been handed some candidates already: all that they complete is
handed over, or, if more is not wanted, the beginning of it. -/
structure Handed (id : QueryId) (m : Modifiers) (capacity : Nat) (cs : List Candidate)
    (bs : List (Batch Inbox)) : Prop where
  chain : Handover.Chain id m capacity cs (bs.flatMap handovers)
  begins : handed bs <+: completed bs
  all : m.sated capacity (cs ++ handed bs) = false → handed bs = completed bs

theorem Handed.nil : Handed id m capacity cs [] := ⟨trivial, List.nil_prefix, fun _ => rfl⟩

/-- One batch is handed over. -/
theorem Handed.single (b : Batch Inbox)
    (h : Delivery.Reflects ⟨b.query, b.active, b.state, false, false⟩ m capacity earlier cs) :
    Handed b.query.id m capacity cs [b] := by
  obtain ⟨hd, hchain⟩ := h.deliver b.now b.candidates
  obtain ⟨hbegins, hall⟩ :=
    b.query.candidates_handovers receive b.now b.active b.state b.candidates
  have hid : (b.query.deliver receive b.now b.active b.state b.candidates).query.id = b.query.id :=
    Registered.id_deliver ..
  have hone : handed [b] = b.handovers.map Handover.candidate := by
    rw [handed, List.flatMap_singleton]
  have hvalid : completed [b] = b.valid := List.flatMap_singleton ..
  rw [← hid] at hall
  constructor
  · rw [List.flatMap_singleton]
    exact hchain
  · rw [hone, hvalid]
    exact hbegins
  · rw [hone, hvalid]
    exact fun hmore => hall (hd.satisfied.trans hmore) hd.failed (hd.active.2 hmore)

theorem Handed.append (h : Handed id m capacity cs bs)
    (h' : Handed id m capacity (cs ++ handed bs) bs') : Handed id m capacity cs (bs ++ bs') := by
  -- Once the modifiers are sated, the batches that follow are not handed over at all.
  have hover : m.sated capacity (cs ++ handed bs) = true → handed bs' = [] := fun hsated => by
    unfold handed
    rw [h'.chain.eq_nil hsated, List.map_nil]
  constructor
  · rw [List.flatMap_append]
    exact h.chain.append h'.chain
  · rw [handed_append, completed_append]
    cases hsated : m.sated capacity (cs ++ handed bs) with
    | true =>
      rw [hover hsated, List.append_nil]
      exact h.begins.trans (List.prefix_append ..)
    | false =>
      rw [h.all hsated]
      exact (List.prefix_append_right_inj _).2 h'.begins
  · rw [handed_append, completed_append, ← List.append_assoc]
    intro hmore
    have hsated : m.sated capacity (cs ++ handed bs) = false := by
      refine Bool.eq_false_iff.2 fun hsated => ?_
      rw [hover hsated, List.append_nil, hsated] at hmore
      cases hmore
    rw [h.all hsated, h'.all hmore]

end Batch

end StandingQuery
