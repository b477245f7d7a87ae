import StandingQuery.Proofs.Consistency

/-! What an index sees of its subscribers.

Of a reaction the index sees which queries are active afterwards and whether the subscriber
has failed; the state of the subscriber is its own. So two subscribers that react alike are
the same to it (`imitates_add`), and an addition fails only if a reaction does
(`add_succeeds`). -/
namespace StandingQuery
open Std

variable {σ τ : Type} {receive : Subscriber σ} {receive' : Subscriber τ} {R : σ → τ → Prop}

/-- The same reaction with another state. -/
def Reaction.withState (r : Reaction σ) (t : τ) : Reaction τ := ⟨r.active, t, r.failed⟩

/-- The same delivery with another state. -/
def Delivery.withState (d : Delivery σ) (t : τ) : Delivery τ :=
  ⟨d.query, d.active, t, d.satisfied, d.failed⟩

/-- The same addition with another state. -/
def QueryIndex.Addition.withState (w : QueryIndex.Addition σ) (t : τ) : QueryIndex.Addition τ :=
  ⟨w.index, t, w.changed, w.satisfied, w.failed⟩

/-- Every reaction of `receive` is one of `receive'` to the same solution: whichever state is to
fit afterwards, there is one to begin with. It is this way round because a subscriber that
goes by a script must be given as much of it as there will be reactions. -/
def Subscriber.Imitates (receive' : Subscriber τ) (receive : Subscriber σ) (R : σ → τ → Prop) : Prop :=
  ∀ active s x t', R (receive active s x).state t' →
    ∃ t, R s t ∧ receive' active t x = (receive active s x).withState t'

theorem imitates_deliver (h : receive'.Imitates receive R) {now : Nat} (q : Registered)
    (active : Active) (s : σ) (cs : List Candidate) {t' : τ}
    (ht : R (q.deliver receive now active s cs).state t') :
    ∃ t, R s t ∧
      q.deliver receive' now active t cs = (q.deliver receive now active s cs).withState t' := by
  induction cs generalizing q active s with
  | nil => exact ⟨t', ht, rfl⟩
  | cons c rest ih =>
    by_cases hpassed : (c.expiration.expiredAt now || !active.contains q.id) = true
    · simp only [Registered.deliver_passed hpassed] at ht ⊢
      exact ih q active s ht
    · simp only [Registered.deliver_offered hpassed] at ht ⊢
      cases hoffer : q.offer c with
      | mk verdict r =>
        rw [hoffer] at ht
        cases verdict with
        | suppressed => exact ih r active s ht
        | exhausted => exact ⟨t', ht, rfl⟩
        | delivered x last =>
          dsimp only at ht ⊢
          -- The state between this reaction and the rest of the delivery.
          have hreact : ∀ t₁, R (receive active s x).state t₁ → ∃ t, R s t ∧
              receive' active t x = (receive active s x).withState t₁ := h active s x
          cases hfailed : (receive active s x).failed with
          | true =>
            rw [hfailed, if_pos rfl] at ht
            obtain ⟨t, hR, hreaction⟩ := hreact t' ht
            refine ⟨t, hR, ?_⟩
            rw [hreaction]
            simp only [Reaction.withState, hfailed, if_true]
            rfl
          | false =>
            rw [hfailed, if_neg Bool.false_ne_true] at ht
            cases last with
            | true =>
              obtain ⟨t, hR, hreaction⟩ := hreact t' ht
              refine ⟨t, hR, ?_⟩
              rw [hreaction]
              simp only [Reaction.withState, hfailed, if_true]
              rfl
            | false =>
              obtain ⟨t₁, hR₁, hrest⟩ := ih r _ _ ht
              obtain ⟨t, hR, hreaction⟩ := hreact t₁ hR₁
              refine ⟨t, hR, ?_⟩
              rw [hreaction]
              simp only [Reaction.withState, hfailed]
              exact hrest

namespace QueryIndex

variable {w : Addition σ} {t : Tuple} {e : Expiration} {now ttl : Nat} {x : QueryIndex}

theorem imitates_visit (h : receive'.Imitates receive R) (w : Addition σ) (ref : PatternRef) {u' : τ}
    (hu : R (visit receive t e now w ref).state u') :
    ∃ u, R w.state u ∧ visit receive' t e now (w.withState u) ref =
      (visit receive t e now w ref).withState u' := by
  by_cases hmatch : ∃ q b, w.failed = false ∧ w.index.registry.get? ref.query = some q ∧
      ref.query ∈ w.index.active ∧ q.pattern[ref.pattern]?.bind (·.match? t) = some b
  · obtain ⟨q, b, hfailed, hq, hactive, hb⟩ := hmatch
    rw [visit_match hfailed hq hactive hb] at hu ⊢
    obtain ⟨u, hR, hd⟩ := imitates_deliver h q w.index.active w.state _ hu
    refine ⟨u, hR, ?_⟩
    rw [visit_match (w := w.withState u) hfailed hq hactive hb]
    dsimp only [Addition.withState] at hd ⊢
    rw [hd]
    rfl
  · have hidle : ∀ {ρ : Type} (f : Subscriber ρ) (s : ρ),
        visit f t e now (w.withState s) ref = w.withState s := fun f s =>
      (visit_cases f t e now (w.withState s) ref).resolve_right hmatch
    have hsame : visit receive t e now w ref = w := hidle receive w.state
    rw [hsame] at hu ⊢
    exact ⟨u', hu, hidle receive' u'⟩

theorem imitates_foldl_visit (h : receive'.Imitates receive R) (refs : List PatternRef)
    (w : Addition σ) {u' : τ} (hu : R (refs.foldl (visit receive t e now) w).state u') :
    ∃ u, R w.state u ∧ refs.foldl (visit receive' t e now) (w.withState u) =
      (refs.foldl (visit receive t e now) w).withState u' := by
  induction refs generalizing w with
  | nil => exact ⟨u', hu, rfl⟩
  | cons ref refs ih =>
    obtain ⟨u₁, hR₁, hrest⟩ := ih (visit receive t e now w ref) hu
    obtain ⟨u, hR, hfirst⟩ := imitates_visit h w ref hR₁
    refine ⟨u, hR, ?_⟩
    rw [List.foldl_cons, hfirst]
    exact hrest

/-- An addition is the same with a subscriber that reacts alike. -/
theorem imitates_add (h : receive'.Imitates receive R) (x : QueryIndex) (t : Tuple) (ttl now : Nat)
    (s : σ) (u' : τ) (hu : R (x.add receive t ttl now s).state u') :
    ∃ u, R s u ∧ x.add receive' t ttl now u = (x.add receive t ttl now s).withState u' := by
  by_cases harity : t.arity ≠ x.arity
  · unfold add at hu ⊢
    simp only [if_pos harity] at hu ⊢
    exact ⟨u', hu, rfl⟩
  · have hvisits : ∀ {w' : Addition τ} {w : Addition σ} {u' : τ}, w' = w.withState u' →
        (if w'.failed then w' else
            { w' with index := w'.satisfied.foldl (fun x id => (x.unregister id).2) w'.index }) =
          Addition.withState (if w.failed then w else
            { w with index := w.satisfied.foldl (fun x id => (x.unregister id).2) w.index }) u' := by
      intro w' w u' hw
      rw [hw]
      unfold Addition.withState
      dsimp only
      split <;> rfl
    unfold add at hu ⊢
    simp only [if_neg harity] at hu ⊢
    have hstate : R ((x.patterns.lookup t).foldl (visit receive t (.ofTtl now ttl) now)
        { index := x, state := s }).state u' := by
      split at hu
      · exact hu
      · exact hu
    obtain ⟨u, hR, hfold⟩ := imitates_foldl_visit h (x.patterns.lookup t) _ hstate
    exact ⟨u, hR, hvisits hfold⟩

/-- An addition does not fail if no reaction of the subscriber does. -/
theorem add_succeeds {P : σ → Prop}
    (h : ∀ active s x, P s → (receive active s x).failed = false ∧ P (receive active s x).state)
    (x : QueryIndex) (t : Tuple) (ttl now : Nat) {s : σ} (hs : P s) :
    (x.add receive t ttl now s).failed = false := by
  have hvisits : ∀ (refs : List PatternRef) (w : Addition σ), w.failed = false → P w.state →
      (refs.foldl (visit receive t (.ofTtl now ttl) now) w).failed = false := by
    intro refs
    induction refs with
    | nil => exact fun w hw _ => hw
    | cons ref refs ih =>
      intro w hw hP
      rw [List.foldl_cons]
      rcases visit_cases receive t (.ofTtl now ttl) now w ref with
        hsame | ⟨q, b, hfailed, hq, hactive, hb⟩
      · rw [hsame]
        exact ih w hw hP
      · rw [visit_match hfailed hq hactive hb]
        have hdelivered := fun cs => Registered.deliver_succeeds h q now w.index.active hP cs
        exact ih _ (hdelivered _).1 (hdelivered _).2
  unfold add
  split
  · rfl
  · dsimp only
    rw [hvisits _ _ rfl hs, if_neg Bool.false_ne_true]

end QueryIndex

end StandingQuery
