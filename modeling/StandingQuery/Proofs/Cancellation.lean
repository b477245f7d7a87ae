import StandingQuery.Proofs.Handles

/-! Nothing comes after a cancellation.

A query is *over* for its holder when a cancellation has returned or it has been seen to be
inactive. From then on its subscriber is served nothing more and its lifetime cannot be
renewed, in the same operation or in any later one, whatever the subscribers do; and if
every call has returned, nothing of it is left in the index (`silent_once_over`). The
reason is that flags only wane: an id is made active once, when it is given out. -/
namespace StandingQuery
open Std

variable {σ : Type} {client : Client σ}

/-! ### What the holder of a query is told -/

namespace Command

/-- The answer gives a query to its holder. -/
def gives (id : QueryId) : (c : Command) → c.Reply → Bool
  | .register .., .ok i => i = id
  | _, _ => false

/-- The answer ends a query for its holder: it has been cancelled, or is seen to be inactive. -/
def ends (id : QueryId) : (c : Command) → c.Reply → Bool
  | .cancel i, _ => i = id
  | .isActive i, active => i = id && !active
  | _, _ => false

/-- The answer grants a query a new lifetime. -/
def renews (id : QueryId) : (c : Command) → c.Reply → Bool
  | .renew i _, granted => i = id && granted
  | _, _ => false

end Command

namespace Happening

def gives (id : QueryId) : Happening → Bool
  | .answered c r => c.gives id r
  | .returned c r => c.gives id r
  | _ => false

def ends (id : QueryId) : Happening → Bool
  | .answered c r => c.ends id r
  | .returned c r => c.ends id r
  | _ => false

/-- A query is served, or renewed by a subscriber. -/
def concerns (id : QueryId) : Happening → Bool
  | .served x => x.query = id
  | .answered c r => c.renews id r
  | _ => false

end Happening

/-- A query has ended for its holder since it was given to it. -/
def Over (id : QueryId) (log : List Happening) : Prop :=
  ∃ h ∈ log.dropWhile (fun g => !g.gives id), h.ends id = true

instance (id : QueryId) (log : List Happening) : Decidable (Over id log) :=
  inferInstanceAs (Decidable (∃ h ∈ log.dropWhile (fun g => !g.gives id), h.ends id = true))

variable {id : QueryId} {log before after : List Happening} {h : Happening}

theorem Over.given (ho : Over id log) : ∃ g ∈ log, g.gives id = true := by
  by_contra hnone
  obtain ⟨h, hin, -⟩ := ho
  have hall : ∀ g ∈ log, (!g.gives id) = true := by simpa using hnone
  rw [List.dropWhile_eq_nil_iff.2 hall] at hin
  cases hin

theorem Over.append (ho : Over id log) (after : List Happening) : Over id (log ++ after) := by
  obtain ⟨h, hin, hends⟩ := ho
  refine ⟨h, ?_, hends⟩
  rw [List.dropWhile_append, if_neg (by simpa using List.ne_nil_of_mem hin)]
  exact List.mem_append_left _ hin

theorem over_concat (ho : Over id (log ++ [h])) : Over id log ∨ h.ends id = true := by
  obtain ⟨h', hin, hends⟩ := ho
  rw [List.dropWhile_append] at hin
  split at hin
  · obtain rfl : h' = h := List.mem_singleton.1 (List.dropWhile_subset _ hin)
    exact .inr hends
  · rcases List.mem_append.1 hin with hin | hin
    · exact .inl ⟨h', hin, hends⟩
    · exact .inr (List.mem_singleton.1 hin ▸ hends)

/-- Once a query is over nothing concerns it. -/
def Silent (id : QueryId) (log : List Happening) : Prop :=
  ∀ before after, log = before ++ after → Over id before → ∀ h ∈ after, h.concerns id = false

theorem Silent.concat (hs : Silent id log) (hh : Over id log → h.concerns id = false) :
    Silent id (log ++ [h]) := by
  intro before after heq hover z hz
  induction after using List.reverseRecOn with
  | nil => cases hz
  | append_singleton after last _ =>
    rw [← List.append_assoc] at heq
    obtain ⟨hfirst, hlast⟩ := List.append_inj' heq rfl
    obtain rfl : h = last := List.head_eq_of_cons_eq hlast
    rcases List.mem_append.1 hz with hz | hz
    · exact hs before after hfirst hover z hz
    · rw [List.mem_singleton.1 hz]
      exact hh (hfirst ▸ hover.append after)

/-! ### Flags wane -/

/-- An id that has been given out and is not active. -/
structure Spent (id : QueryId) (a : Active) (f : Front) : Prop where
  old : id < f.nextId
  inactive : id ∉ a

theorem Spent.issued {config : Config} {n : Nat} {a a' : Active} {f g : Front}
    (hs : Spent id a f) (hi : Front.Issues config n a f a' g) : Spent id a' g := by
  cases hi with
  | nothing hg => exact ⟨hg.nextId ▸ hs.old, hs.inactive⟩
  | @register r g hid _ hg =>
    refine ⟨hg.nextId ▸ Nat.lt_succ_of_lt hs.old, fun hin => ?_⟩
    rw [ExtTreeSet.mem_insert, Std.compare_eq_iff_eq] at hin
    exact hin.elim (hid.trans_ne (Nat.ne_of_gt hs.old)) hs.inactive
  | @other r g hother hg =>
    refine ⟨hg.nextId ▸ hs.old, fun hin => hs.inactive ?_⟩
    cases r with
    | register r => cases hother
    | unregister i => exact ExtTreeSet.mem_of_mem_erase hin
    | _ => exact hin

theorem Front.Issues.nextId_le {config : Config} {n : Nat} {a a' : Active} {f g : Front}
    (hi : Front.Issues config n a f a' g) : f.nextId ≤ g.nextId := by
  cases hi with
  | nothing hg => exact hg.nextId.ge
  | register _ _ hg => exact (Nat.le_succ _).trans hg.nextId.ge
  | other _ hg => exact hg.nextId.ge

/-- An id that has been given out remains so. -/
theorem waning_old (client : Client σ) (id : QueryId) : Waning client fun _ f _ => id < f.nextId where
  strike h _ hf := hf ▸ h
  serve h _ := h
  told {config d c} h := h.trans_le (Desk.issues_answer config client.noted d c).nextId_le

theorem waning_spent (client : Client σ) (id : QueryId) : Waning client fun a f _ => Spent id a f where
  strike hs ha hf := ⟨hf ▸ hs.old, fun hin => hs.inactive (ha id hin)⟩
  serve hs _ := hs
  told {config d c} hs := hs.issued (Desk.issues_answer config client.noted d c)

/-- What the log says of a query agrees with its flag. -/
structure Quiet (a : Active) (f : Front) (log : List Happening) : Prop where
  old : ∀ id ∈ a, id < f.nextId
  given : ∀ id, (∃ g ∈ log, g.gives id = true) → id < f.nextId
  past : ∀ id, Over id log → id ∉ a
  silent : ∀ id, Silent id log

namespace Quiet

variable {a a' : Active} {f g : Front}

theorem spent (hq : Quiet a f log) (ho : Over id log) : Spent id a f :=
  ⟨hq.given id ho.given, hq.past id ho⟩

theorem strike (hq : Quiet a f log) (ha : ∀ id ∈ a', id ∈ a) (hf : g.nextId = f.nextId) :
    Quiet a' g log where
  old id hin := hf ▸ hq.old id (ha id hin)
  given id hg := hf ▸ hq.given id hg
  past id ho hin := hq.past id ho (ha id hin)
  silent := hq.silent

theorem issued {config : Config} {n : Nat} (hq : Quiet a f log)
    (hi : Front.Issues config n a f a' g) : Quiet a' g log := by
  have hover : ∀ id, Over id log → id ∉ a' := fun id ho => ((hq.spent ho).issued hi).inactive
  cases hi with
  | nothing hg => exact hq.strike (fun _ h => h) hg.nextId
  | @register r g hid _ hg =>
    refine ⟨fun id hin => ?_, fun id hgiven => ?_, hover, hq.silent⟩
    · rw [ExtTreeSet.mem_insert, Std.compare_eq_iff_eq] at hin
      rw [hg.nextId]
      exact hin.elim (fun hr => hr ▸ hid ▸ Nat.lt_succ_self _) fun h => Nat.lt_succ_of_lt (hq.old id h)
    · rw [hg.nextId]
      exact Nat.lt_succ_of_lt (hq.given id hgiven)
  | @other r g hother hg =>
    refine hq.strike (fun id hin => ?_) hg.nextId
    cases r with
    | register r => cases hother
    | unregister i => exact ExtTreeSet.mem_of_mem_erase hin
    | _ => exact hin

/-- Something is noted that agrees with the flags. -/
theorem noted (hq : Quiet a f log) (hgives : ∀ id, h.gives id = true → id < f.nextId)
    (hends : ∀ id, h.ends id = true → id ∉ a)
    (hconcerns : ∀ id, Over id log → h.concerns id = false) : Quiet a f (log ++ [h]) where
  old := hq.old
  given id := by
    intro ⟨g, hg, hid⟩
    rcases List.mem_append.1 hg with hg | hg
    · exact hq.given id ⟨g, hg, hid⟩
    · exact hgives id (List.mem_singleton.1 hg ▸ hid)
  past id ho := (over_concat ho).elim (hq.past id) (hends id)
  silent id := (hq.silent id).concat (hconcerns id)

end Quiet

/-- What a subscriber is told agrees with the flags. -/
theorem Desk.answer_agrees (config : Config) (client : Client σ) (d : Desk σ) (c : Command)
    (id : QueryId) :
    (c.gives id (d.answer config client c).1 = true → id < (d.answer config client c).2.front.nextId) ∧
      (c.ends id (d.answer config client c).1 = true → id ∉ (d.answer config client c).2.active) ∧
      (c.renews id (d.answer config client c).1 = true → id ∈ d.active) := by
  cases c with
  | register query ttl =>
    refine ⟨fun hgives => ?_, fun h => Bool.noConfusion h, fun h => Bool.noConfusion h⟩
    cases henrol : d.front.enrol config query ttl with
    | error e => simp [answer, henrol, Command.gives] at hgives
    | ok p =>
      obtain ⟨r, front⟩ := p
      obtain ⟨-, hr, rfl⟩ := Front.enrol_eq_ok henrol
      obtain ⟨n, hn⟩ := client.signalIfDue_front
        { d.front with
          queue := d.front.queue ++ [.register r]
          nextId := d.front.nextId + 1
          queriesSince := d.front.queriesSince + 1 } d.state
      simp only [answer, henrol, Front.defer, hn, Command.gives, decide_eq_true_eq] at hgives ⊢
      rw [← hgives, hr]
      exact Nat.lt_succ_self _
  | cancel i =>
    refine ⟨fun h => Bool.noConfusion h, fun hends => ?_, fun h => Bool.noConfusion h⟩
    obtain rfl : i = id := by simpa [Command.ends] using hends
    unfold answer
    dsimp only
    split
    · simp [Desk.defer]
    · next hgone => exact fun hin => hgone (ExtTreeSet.mem_iff_contains.1 hin)
  | isActive i =>
    refine ⟨fun h => Bool.noConfusion h, fun hends => ?_, fun h => Bool.noConfusion h⟩
    simp only [answer, Command.ends, Bool.and_eq_true, decide_eq_true_eq, Bool.not_eq_true'] at hends
    rw [← hends.1, ExtTreeSet.mem_iff_contains]
    exact Bool.eq_false_iff.1 hends.2
  | renew i ttl =>
    refine ⟨fun h => Bool.noConfusion h, fun h => Bool.noConfusion h, fun hrenews => ?_⟩
    simp only [Command.renews, Bool.and_eq_true, decide_eq_true_eq] at hrenews
    obtain ⟨rfl, hgranted⟩ := hrenews
    unfold answer at hgranted
    dsimp only at hgranted
    split at hgranted
    · next hactive => exact ExtTreeSet.mem_iff_contains.2 (Bool.and_eq_true_iff.1 hactive).1
    · cases hgranted
  | _ => exact ⟨fun h => Bool.noConfusion h, fun h => Bool.noConfusion h, fun h => Bool.noConfusion h⟩

theorem waning_quiet (client : Client σ) : Waning client Quiet where
  strike hq ha hf := hq.strike ha hf
  serve {a f log x} hq hin := by
    refine hq.noted (fun _ h => Bool.noConfusion h) (fun _ h => Bool.noConfusion h) fun id ho => ?_
    exact decide_eq_false fun hid => hq.past id ho (hid ▸ hin)
  told {config d c} hq := by
    have hsame := (Desk.answer_noted config client d c).2
    have hissued := hq.issued (Desk.issues_answer config client.noted d c)
    rw [← hsame] at hissued hq
    have hagrees := Desk.answer_agrees config client.noted d c
    refine hissued.noted (fun id => (hagrees id).1) (fun id => (hagrees id).2.1) fun id ho => ?_
    exact Bool.eq_false_iff.2 fun h => hq.past id ho ((hagrees id).2.2 h)

/-! ### Calls from outside -/

namespace Engine

variable {e e₀ : Engine} {c : Command} {r : Request}

/-- The id that is given is the one with which the query has been enrolled. -/
theorem register_ok {τ : Type} {client : Client τ} {fuel : Nat} {s : τ} {query : Query} {ttl : Nat}
    (h : (register client fuel e s query ttl).1 = .done (.ok id)) :
    ∃ r front, e.front.enrol e.config query ttl = .ok (r, front) ∧ r.id = id := by
  unfold register at h
  split at h
  · cases h
  · next r front henrol =>
    refine ⟨r, front, henrol, ?_⟩
    unfold runThen at h
    split at h
    · next answer _ _ _ =>
      cases answer with
      | refused reason => cases h
      | _ =>
        cases h
        rfl
    · cases h
    · cases h

theorem Quiet.outset (hq : Quiet e.index.active e.front log) (hout : e.outset c = some (r, e₀)) :
    Quiet (e₀.push r).index.active (e₀.push r).front log := by
  obtain ⟨-, -, -, hissues⟩ := issues_outset hout
  exact (hq.issued hissues).strike (fun _ h => h) rfl

theorem register_agrees (client : Client σ) (hsound : e.Sound) {fuel : Nat} {s : σ} {query : Query}
    {ttl : Nat} {id : QueryId} (hreply : (e.execute client.noted fuel (s, log) (.register query ttl)).1 =
      .done (.ok id)) :
    id < (e.execute client.noted fuel (s, log) (.register query ttl)).2.1.front.nextId := by
  obtain ⟨r, front, henrol, hid⟩ := register_ok hreply
  have hnew := (Front.enrol_eq_ok henrol).2
  have hout : e.outset (.register query ttl) =
      some (.register r, { e with index := e.index.activate r.id, front }) := by
    simp [outset, henrol]
  refine ((waning_old client id).upheld.execute_of_outset [] (fun _ _ _ _ h => ⟨h.1.counted _, h.2⟩)
    hout fuel s ⟨hsound.issued hout, ?_⟩).2
  rw [← hid, hnew.1, hnew.2]
  exact Nat.lt_succ_self _

theorem cancel_agrees (client : Client σ) (hsound : e.Sound) (hq : Quiet e.index.active e.front log)
    (fuel : Nat) (s : σ) (id : QueryId) :
    id ∉ (e.execute client.noted fuel (s, log) (.cancel id)).2.1.index.active := by
  by_cases hactive : e.index.active.contains id = true
  · by_cases halive : e.front.alive = true
    · have hout : e.outset (.cancel id) =
          some (.unregister id, { e with index := e.index.deactivate id }) := by
        unfold outset
        simp [hactive, halive]
      have hspent : Spent id (e.index.deactivate id).active e.front :=
        ⟨hq.old id (ExtTreeSet.mem_iff_contains.2 hactive), by simp [QueryIndex.deactivate]⟩
      exact ((waning_spent client id).upheld.execute_of_outset [] (fun _ _ _ _ h =>
        ⟨h.1.counted _, h.2.old, h.2.inactive⟩) hout fuel s
        ⟨hsound.issued hout, hspent.old, hspent.inactive⟩).2.inactive
    · unfold execute cancel
      simp [hactive, halive, QueryIndex.deactivate]
  · unfold execute cancel
    simpa [hactive] using fun hin => hactive (ExtTreeSet.mem_iff_contains.1 hin)

/-- What a call from outside is told agrees with the flags when it returns. -/
theorem execute_agrees (client : Client σ) (hsound : e.Sound) (hq : Quiet e.index.active e.front log)
    (fuel : Nat) (s : σ) (c : Command) {reply : c.Reply}
    (hreply : (e.execute client.noted fuel (s, log) c).1 = .done reply) (id : QueryId) :
    (c.gives id reply = true → id < (e.execute client.noted fuel (s, log) c).2.1.front.nextId) ∧
      (c.ends id reply = true → id ∉ (e.execute client.noted fuel (s, log) c).2.1.index.active) := by
  cases c with
  | register query ttl =>
    refine ⟨fun hgives => ?_, fun h => Bool.noConfusion h⟩
    cases reply with
    | error reason => cases hgives
    | ok i =>
      obtain rfl : i = id := by simpa [Command.gives] using hgives
      exact register_agrees client hsound hreply
  | cancel i =>
    refine ⟨fun h => Bool.noConfusion h, fun hends => ?_⟩
    obtain rfl : i = id := by simpa [Command.ends] using hends
    exact cancel_agrees client hsound hq fuel s i
  | isActive i =>
    refine ⟨fun h => Bool.noConfusion h, fun hends => ?_⟩
    have hactive : e.index.active.contains i = reply := by
      cases hreply
      rfl
    simp only [Command.ends, Bool.and_eq_true, decide_eq_true_eq, Bool.not_eq_true', ← hactive] at hends
    rw [← hends.1, ExtTreeSet.mem_iff_contains]
    exact Bool.eq_false_iff.1 hends.2
  | _ => exact ⟨fun h => Bool.noConfusion h, fun h => Bool.noConfusion h⟩

/-- So does how it ends. -/
theorem ending_agrees (client : Client σ) (hsound : e.Sound)
    (hq : Quiet e.index.active e.front log) (fuel : Nat) (s : σ) (c : Command) (id : QueryId) :
    let o := e.execute client.noted fuel (s, log) c
    ((c.ending o.1).gives id = true → id < o.2.1.front.nextId) ∧
      ((c.ending o.1).ends id = true → id ∉ o.2.1.index.active) ∧
      (c.ending o.1).concerns id = false := by
  dsimp only
  cases hends : (e.execute client.noted fuel (s, log) c).1 with
  | done reply =>
    obtain ⟨hgives, hover⟩ := execute_agrees client hsound hq fuel s c hends id
    exact ⟨hgives, hover, rfl⟩
  | failed => exact ⟨fun h => Bool.noConfusion h, fun h => Bool.noConfusion h, rfl⟩
  | unfinished => exact ⟨fun h => Bool.noConfusion h, fun h => Bool.noConfusion h, rfl⟩

end Engine

theorem Course.quiet_run (client : Client σ) (config : Config) (clock : Clock) (s : σ)
    (moves : List (Move σ)) :
    let x := run client config clock s moves
    Quiet x.engine.index.active x.engine.front x.log := by
  induction moves using List.reverseRecOn with
  | nil =>
    refine ⟨fun id hin => ?_, fun id hg => ?_, fun id ho => ?_, fun id before after heq ho => ?_⟩
    · simp [run, follow, start, Engine.new, QueryIndex.new] at hin
    · obtain ⟨g, hg, -⟩ := hg
      cases hg
    · obtain ⟨g, hg, -⟩ := ho.given
      cases hg
    · obtain ⟨g, hg, -⟩ := (ho.append after).given
      rw [← heq] at hg
      cases hg
  | append_singleton moves m ih =>
    have hsound := sound_run client config clock s moves
    unfold run at ih hsound ⊢
    rw [follow_append]
    generalize (start config clock s).follow client moves = x at ih hsound ⊢
    cases m with
    | call c fuel =>
      have hkept := ((waning_quiet client).upheld.execute (c := c) x.points
        (fun _ _ _ _ h => ⟨h.1.counted _, h.2.strike (fun _ h => h) rfl⟩)
        (fun _ _ hout => ⟨hsound.issued hout, Engine.Quiet.outset ih hout⟩) fuel x.state
        ⟨hsound, ih⟩).2
      have hagrees := Engine.ending_agrees client hsound ih fuel x.state c
      exact hkept.noted (fun id => (hagrees id).1) (fun id => (hagrees id).2.1)
        fun id _ => (hagrees id).2.2
    | own s => exact ih
    | look => exact ih.strike (fun _ h => h) rfl

/-- Whatever the subscribers do, fail included: once a query is over for its holder, no solution is
served to it at any later point of the run, no later command of a subscriber renews it, and no call
from outside does; and whenever all calls have returned, nothing of it is left in the index. (A
call that a subscriber has broken off leaves requests waiting. If one of them registers the query
then a cancellation does not reach it, and it stays in the index, inactive.) -/
theorem silent_once_over (client : Client σ) (config : Config) (clock : Clock) (s : σ)
    (moves : List (Move σ)) {id : QueryId} {before after : List Happening}
    (hlog : (Course.run client config clock s moves).log = before ++ after) (hover : Over id before) :
    let x := Course.run client config clock s moves
    (∀ h ∈ after, h.concerns id = false) ∧
      (∀ fuel s ttl, x.engine.execute client fuel s (.renew id ttl) = (.done false, x.engine, s)) ∧
      (x.Unbroken → x.engine.front.alive = true → x.engine.index.Forgotten id) := by
  have hquiet := Course.quiet_run client config clock s moves
  have hsound := Course.sound_run client config clock s moves
  have hinactive := hquiet.past id (hlog ▸ hover.append after)
  refine ⟨hquiet.silent id before after hlog hover, fun fuel s ttl => ?_, fun hreturned halive => ?_⟩
  · unfold Engine.execute Engine.renew
    simp [contains_eq_false hinactive]
  · refine hsound.consistent.forgotten (Bool.eq_false_iff.2 fun hin => hinactive ?_) hinactive
    exact (Course.mem_active_run hreturned halive id).2 hin

/-- The subscriber has ended its own query. Nothing that happens after that concerns it, and it has
gone by the end. -/
theorem silent_once_over_meddling :
    let x := Course.run meddler {} ⟨0⟩ false meddling
    (∀ h ∈ x.log.drop 4, h.concerns 1 = false) ∧ x.engine.index.Forgotten 1 := by
  have hover : Over 1 ((Course.run meddler {} ⟨0⟩ false meddling).log.take 4) := by decide +kernel
  have hreturned : (Course.run meddler {} ⟨0⟩ false meddling).Unbroken := by decide +kernel
  have halive : (Course.run meddler {} ⟨0⟩ false meddling).engine.front.alive = true := by
    decide +kernel
  obtain ⟨hsilent, -, hgone⟩ := silent_once_over meddler {} ⟨0⟩ false meddling
    (List.take_append_drop 4 _).symm hover
  exact ⟨hsilent, hgone hreturned halive⟩

/-- Registers a query and breaks off. -/
def quitter : Client Unit where
  respond _ := .issue (.register ⟨QueryIndex.twoEdges, {}⟩ 0) fun _ => .fail
  cleanupDue _ _ _ _ s := (false, s)

/-- A cancellation does not reach a query that a broken call has left waiting: it is registered from
then on, and not active. -/
theorem registered_once_over_quitter :
    let e := (Course.run quitter {} ⟨0⟩ () [.call (.register ⟨QueryIndex.twoEdges, {}⟩ 0) 0,
      .call (.add QueryIndex.loop 0) 0, .call (.cancel 2) 1, .call (.cancel 2) 0]).engine
    e.index.queryIds = [1, 2] ∧ e.index.active.contains 2 = false := by decide +kernel

end StandingQuery
