import Mathlib.Data.Set.Card
import StandingQuery.Proofs.EvictionSchedule
import StandingQuery.Proofs.Share
import StandingQuery.Proofs.Upkeep

/-! Handles and the index agree.

The holder of a query sees its flag; the index has its record. While an operation is under
way the flag is ahead of the record: a query that waits to be registered is active
already, and one that waits to be taken out, or has received its last solution, is not
active any more. What the flag says is what the record will say when all that waits has
been applied (`Agreed`). Every step keeps this, so once nothing waits the active queries
are the registered ones (`handles_agree`). -/
namespace StandingQuery
open Std

variable {σ : Type} {client : Client σ}

/-! ### What waits -/

/-- Whether a query is registered after a request, given whether it is before. -/
def Request.settle (id : QueryId) (registered : Bool) : Request → Bool
  | .register r => registered || r.id = id
  | .unregister i => registered && i ≠ id
  | _ => registered

/-- The query that a request registers. -/
def Request.enrols? : Request → Option QueryId
  | .register r => some r.id
  | _ => none

/-- The queries that wait to be registered. -/
def enrolled (queue : List Request) : List QueryId := queue.filterMap Request.enrols?

theorem enrolled_cons (r : Request) (queue : List Request) :
    enrolled (r :: queue) = r.enrols?.toList ++ enrolled queue := by
  cases h : r.enrols? <;> simp [enrolled, h]

theorem enrolled_append (queue : List Request) (r : Request) :
    enrolled (queue ++ [r]) = enrolled queue ++ r.enrols?.toList := by
  cases h : r.enrols? <;> simp [enrolled, h]

/-- A query that is not registered and does not wait to be is not going to be. -/
theorem foldl_settle_of_not_enrolled {queue : List Request} {id : QueryId} (h : id ∉ enrolled queue) :
    queue.foldl (Request.settle id) false = false := by
  induction queue with
  | nil => rfl
  | cons r queue ih =>
    cases r with
    | register r =>
      have hid : id ≠ r.id ∧ id ∉ enrolled queue := by simpa [enrolled, Request.enrols?] using h
      simpa [Request.settle, Ne.symm hid.1] using ih hid.2
    | unregister i => simpa [Request.settle] using ih (by simpa [enrolled, Request.enrols?] using h)
    | _ => exact ih h

/-- The flags are what the records will be. `reg` tells which queries are registered; those that are
over in the addition under way are registered still, and not active any more. Ids are taken once. -/
structure Agreed (past : List QueryId) (reg : QueryId → Bool) (a : Active) (f : Front) : Prop where
  flags : f.alive = true →
    ∀ id, id ∈ a ↔ id ∉ past ∧ f.queue.foldl (Request.settle id) (reg id) = true
  past : ∀ id ∈ past, reg id = true
  old : ∀ id, reg id = true → id < f.nextId
  fresh : ∀ id ∈ enrolled f.queue, id < f.nextId ∧ reg id = false
  once : (enrolled f.queue).Nodup

namespace Agreed

variable {past : List QueryId} {reg reg' : QueryId → Bool} {a a' : Active} {f g : Front}
variable {config : Config} {r : Request} {n : Nat} {id : QueryId}

theorem alike (h : Agreed past reg a f) (hg : f.Alike g) : Agreed past reg a g where
  flags halive := by
    rw [hg.queue]
    exact h.flags (hg.alive halive)
  past := h.past
  old := hg.nextId ▸ h.old
  fresh := hg.queue ▸ hg.nextId ▸ h.fresh
  once := hg.queue ▸ h.once

/-- A query is active as soon as it waits to be registered. -/
theorem enrols {r : Registration} {m : Nat} (h : Agreed past reg a f) (hid : r.id = f.nextId) :
    Agreed past reg (a.insert r.id) { f with
      queue := f.queue ++ [.register r]
      nextId := f.nextId + 1
      queriesSince := m } := by
  have hnone : ∀ id, id < f.nextId → r.id ≠ id := fun id hlt => hid.trans_ne (Nat.ne_of_gt hlt)
  constructor
  · intro halive id
    rw [ExtTreeSet.mem_insert, Std.compare_eq_iff_eq, h.flags halive, List.foldl_append]
    by_cases hr : r.id = id
    · have hout : id ∉ past := fun hin => hnone id (h.old id (h.past id hin)) hr
      simp [Request.settle, hr, hout]
    · simp [Request.settle, hr]
  · exact h.past
  · exact fun id hreg => Nat.lt_succ_of_lt (h.old id hreg)
  · intro id hin
    dsimp only at hin ⊢
    rw [enrolled_append, List.mem_append] at hin
    rcases hin with hin | hin
    · exact ⟨Nat.lt_succ_of_lt (h.fresh id hin).1, (h.fresh id hin).2⟩
    · obtain rfl : id = r.id := by simpa [Request.enrols?] using hin
      refine ⟨hid ▸ Nat.lt_succ_self _, Bool.eq_false_iff.2 fun hreg => ?_⟩
      exact hnone _ (h.old _ hreg) rfl
  · dsimp only
    rw [enrolled_append]
    refine List.Nodup.append h.once (by simp [Request.enrols?]) ?_
    simpa [Request.enrols?] using fun hin => hnone _ (h.fresh _ hin).1 rfl

/-- A query is not active any more as soon as it waits to be taken out. -/
theorem defers {m : Nat} (h : Agreed past reg a f) (hr : r.isRegister = false) :
    Agreed past reg (r.flag a) { f with queue := f.queue ++ [r], tuplesSince := m } := by
  have hsame : enrolled (f.queue ++ [r]) = enrolled f.queue := by
    have hnone : r.enrols? = none := by cases r <;> first | rfl | cases hr
    rw [enrolled_append, hnone, Option.toList_none, List.append_nil]
  constructor
  · intro halive id
    dsimp only
    rw [List.foldl_append]
    have hflags := h.flags halive id
    cases r with
    | register r => cases hr
    | unregister i =>
      rw [show Request.flag a (.unregister i) = a.erase i from rfl, ExtTreeSet.mem_erase, ne_eq,
        Std.compare_eq_iff_eq, hflags]
      simp only [List.foldl_cons, List.foldl_nil, Request.settle, Bool.and_eq_true, decide_eq_true_eq]
      tauto
    | _ => exact hflags
  · exact h.past
  · exact h.old
  · dsimp only
    rw [hsame]
    exact h.fresh
  · dsimp only
    rw [hsame]
    exact h.once

/-- A flag changes as the request is issued, the record when it is applied. -/
theorem issued (h : Agreed past reg a f) (hi : Front.Issues config n a f a' g) :
    Agreed past reg a' g := by
  cases hi with
  | nothing hg => exact h.alike hg
  | register hid _ hg => exact (h.enrols hid).alike hg
  | other hother hg => exact (h.defers hother).alike hg

/-- The last solution of a query has been delivered. -/
theorem ended (h : Agreed past reg a f) (hid : reg id = true) :
    Agreed (past ++ [id]) reg (a.erase id) f where
  flags halive i := by
    rw [ExtTreeSet.mem_erase, ne_eq, Std.compare_eq_iff_eq, h.flags halive, List.mem_append,
      List.mem_singleton, not_or, eq_comm]
    tauto
  past := List.forall_mem_append.2 ⟨h.past, by simpa using hid⟩
  old := h.old
  fresh := h.fresh
  once := h.once

/-- A request has been applied. Each query has either got what the request is about, with its flag
as it was, or has gone, flag and all, and does not wait to be registered. -/
theorem applied (h : Agreed [] reg a { f with queue := r :: f.queue })
    (happlied : ∀ id, (reg' id = r.settle id (reg id) ∧ (id ∈ a' ↔ id ∈ a)) ∨
      (reg' id = false ∧ id ∉ a' ∧ id ∉ enrolled f.queue)) : Agreed [] reg' a' f := by
  have hfresh : ∀ id ∈ enrolled f.queue, id ∈ enrolled (r :: f.queue) := fun id hin => by
    rw [enrolled_cons]
    exact List.mem_append_right _ hin
  have honce : (r.enrols?.toList ++ enrolled f.queue).Nodup := enrolled_cons r f.queue ▸ h.once
  constructor
  · intro halive id
    rcases happlied id with ⟨hreg, hactive⟩ | ⟨hreg, hactive, hnone⟩
    · rw [hactive, hreg]
      exact h.flags halive id
    · rw [hreg, foldl_settle_of_not_enrolled hnone]
      simp [hactive]
  · exact fun id hin => absurd hin List.not_mem_nil
  · intro id hid
    rcases happlied id with ⟨hreg, -⟩ | ⟨hreg, -⟩
    · by_cases hold : reg id = true
      · exact h.old id hold
      · rw [hreg, Bool.eq_false_iff.2 hold] at hid
        cases r with
        | register r =>
          obtain rfl : r.id = id := by simpa [Request.settle] using hid
          exact (h.fresh r.id (by simp [enrolled, Request.enrols?])).1
        | unregister i => simp [Request.settle] at hid
        | _ => cases hid
    · rw [hreg] at hid
      cases hid
  · intro id hin
    refine ⟨(h.fresh id (hfresh id hin)).1, ?_⟩
    have hnew := (h.fresh id (hfresh id hin)).2
    rcases happlied id with ⟨hreg, -⟩ | ⟨hreg, -⟩
    · rw [hreg, hnew]
      cases r with
      | register r =>
        have hne : r.id ≠ id := fun he => (List.nodup_cons.1 honce).1 (he ▸ hin)
        simp [Request.settle, hne]
      | _ => rfl
    · exact hreg
  · exact honce.of_append_right

/-- The queries that are over have been taken out. -/
theorem removed (h : Agreed past reg a f) (hgone : ∀ id ∈ past, reg' id = false ∧ id ∉ a')
    (hstays : ∀ id ∉ past, reg' id = reg id ∧ (id ∈ a' ↔ id ∈ a)) : Agreed [] reg' a' f := by
  have hnone : ∀ id ∈ past, id ∉ enrolled f.queue := fun id hin hq =>
    Bool.false_ne_true ((h.fresh id hq).2.symm.trans (h.past id hin))
  have hreg : ∀ id, reg' id = true → reg id = true ∧ id ∉ past := fun id hid => by
    by_cases hin : id ∈ past
    · rw [(hgone id hin).1] at hid
      cases hid
    · exact ⟨(hstays id hin).1 ▸ hid, hin⟩
  constructor
  · intro halive id
    by_cases hin : id ∈ past
    · rw [(hgone id hin).1, foldl_settle_of_not_enrolled (hnone id hin)]
      simp [(hgone id hin).2]
    · rw [(hstays id hin).1, (hstays id hin).2, h.flags halive]
      simp [hin]
  · exact fun id hin => absurd hin List.not_mem_nil
  · exact fun id hid => h.old id (hreg id hid).1
  · refine fun id hin => ⟨(h.fresh id hin).1, Bool.eq_false_iff.2 fun hid => ?_⟩
    exact Bool.false_ne_true ((h.fresh id hin).2.symm.trans (hreg id hid).1)
  · exact h.once

end Agreed

/-! ### Requests, applied -/

namespace QueryIndex

variable {x y : QueryIndex} {id : QueryId}

/-- Of a query its record and its flag are left alone, or it is taken out. -/
def TakesOut (x y : QueryIndex) (id : QueryId) : Prop :=
  (y.contains id = x.contains id ∧ (id ∈ y.active ↔ id ∈ x.active)) ∨
    (x.contains id = true ∧ y.contains id = false ∧ id ∉ y.active)

theorem contains_eq_share (x : QueryIndex) (id : QueryId) :
    x.contains id = (x.share id).record.isSome := Registry.contains_eq _ _

theorem mem_active_iff_share : id ∈ x.active ↔ (x.share id).active = true :=
  ExtTreeSet.mem_iff_contains

theorem same_of_share (h : y.share id = x.share id) :
    y.contains id = x.contains id ∧ (id ∈ y.active ↔ id ∈ x.active) := by
  rw [contains_eq_share, contains_eq_share, mem_active_iff_share, mem_active_iff_share, h]
  exact ⟨rfl, Iff.rfl⟩

theorem gone_of_drop (h : y.share id = (x.share id).drop) (hin : x.contains id = true) :
    y.contains id = false ∧ id ∉ y.active := by
  rw [contains_eq_share] at hin
  rw [contains_eq_share, mem_active_iff_share, h, Share.drop, if_pos hin]
  exact ⟨rfl, Bool.false_ne_true⟩

theorem takesOut_of_drop (h : y.share id = (x.share id).drop) : TakesOut x y id := by
  by_cases hin : x.contains id = true
  · exact .inr ⟨hin, gone_of_drop h hin⟩
  · refine .inl (same_of_share ?_)
    rw [contains_eq_share] at hin
    rw [h, Share.drop, if_neg hin]

theorem takesOut_renew (hc : x.Consistent []) (i : QueryId) (ttl now : Nat) (id : QueryId) :
    TakesOut x (x.renew i ttl now).2 id := by
  refine .inl ⟨?_, by rw [(renew_frame x i ttl now).1]⟩
  rw [contains_eq_share, contains_eq_share, share_renew hc]
  unfold Share.renew
  split
  · split
    · exact Option.isSome_map
    · rfl
  · rfl

theorem takesOut_removeExpired (hc : x.Consistent []) (now : Nat) (id : QueryId) :
    TakesOut x (x.removeExpired now).2 id := by
  have hshare := share_removeExpired hc now id
  unfold Share.expire at hshare
  split at hshare
  · exact .inl (same_of_share hshare)
  · split at hshare
    · exact takesOut_of_drop hshare
    · refine .inl ⟨?_, ?_⟩
      · rw [contains_eq_share, contains_eq_share, hshare]
      · rw [mem_active_iff_share, mem_active_iff_share, hshare]

end QueryIndex

namespace Engine
open QueryIndex

variable {e : Engine} {r : Request} {y : QueryIndex} {f : Front}

/-- The flags of an engine are what the records will be. -/
abbrev Flagged (e : Engine) : Prop := Agreed [] e.index.contains e.index.active e.front

theorem Flagged.not_enrolled {id : QueryId} (h : (e.push r).Flagged) (hid : e.index.contains id = true) :
    id ∉ enrolled e.front.queue := by
  intro hq
  have hwaits : id ∈ enrolled (r :: e.front.queue) := by
    rw [enrolled_cons]
    exact List.mem_append_right _ hq
  exact Bool.false_ne_true ((h.fresh id hwaits).2.symm.trans hid)

/-- A request that registers nothing, and at most takes queries out. -/
theorem Flagged.takesOut (h : (e.push r).Flagged) (hr : ∀ id b, Request.settle id b r = b)
    (hy : ∀ id, TakesOut e.index y id) : Agreed [] y.contains y.active e.front := by
  refine h.applied fun id => ?_
  rcases hy id with ⟨hreg, hactive⟩ | ⟨hin, hreg, hactive⟩
  · exact .inl ⟨hreg.trans (hr id _).symm, hactive⟩
  · exact .inr ⟨hreg, hactive, h.not_enrolled hin⟩

theorem Flagged.registered {r : Registration} {now : Nat} (h : (e.push (.register r)).Flagged)
    (hy : e.index.register r now = .ok y) : Agreed [] y.contains y.active e.front := by
  refine h.applied fun id => .inl ⟨?_, ?_⟩
  · show y.registry.contains id = Request.settle id (e.index.registry.contains id) (.register r)
    rw [Registry.contains_eq, Registry.contains_eq, get?_register hy id]
    by_cases hid : r.id = id <;> simp [Request.settle, hid]
  · obtain ⟨-, rfl⟩ := register_eq_ok hy
    rfl

/-- A query that is refused loses its flag, and its id is not given again. -/
theorem Flagged.refused {r : Registration} (h : (e.push (.register r)).Flagged) :
    Agreed [] e.index.contains (e.index.deactivate r.id).active e.front := by
  have hfresh := h.fresh r.id (by simp [push, enrolled, Request.enrols?])
  have honce : (r.id :: enrolled e.front.queue).Nodup := by
    simpa [push, enrolled, Request.enrols?] using h.once
  refine h.applied fun id => ?_
  by_cases hid : r.id = id
  · subst hid
    refine .inr ⟨hfresh.2, ?_, (List.nodup_cons.1 honce).1⟩
    simp [deactivate]
  · refine .inl ⟨by simp [Request.settle, hid, push, QueryIndex.contains], ?_⟩
    simp [deactivate, push, hid]

theorem Flagged.unregistered {i : QueryId} (h : (e.push (.unregister i)).Flagged)
    (hc : e.index.Consistent []) :
    Agreed [] (e.index.unregister i).2.contains (e.index.unregister i).2.active e.front := by
  refine h.applied fun id => ?_
  have hshare := share_unregister hc i id
  by_cases hid : i = id
  · subst hid
    rw [if_pos rfl] at hshare
    have hgone : (e.index.unregister i).2.contains i = false := by
      rw [QueryIndex.contains, Registry.contains_eq, get?_unregister, if_pos rfl]
      rfl
    rcases takesOut_of_drop hshare with ⟨-, hactive⟩ | ⟨hin, hreg, hactive⟩
    · exact .inl ⟨hgone.trans (by simp [Request.settle]), hactive⟩
    · exact .inr ⟨hreg, hactive, h.not_enrolled hin⟩
  · rw [if_neg hid] at hshare
    obtain ⟨hreg, hactive⟩ := same_of_share hshare
    exact .inl ⟨hreg.trans (by simp [Request.settle, hid, push]), hactive⟩

theorem Flagged.added {t : Tuple} {ttl : Nat} (h : (e.push (.add t ttl)).Flagged)
    (hc : e.index.Consistent []) (client : Client σ) (s : σ) (log : List Happening)
    (hfine : (apply client.noted e (s, log) (.add t ttl)).failed = false) :
    (apply client.noted e (s, log) (.add t ttl)).engine.Flagged := by
  have hkept : Sustains client e fun past a f _ => Agreed past e.index.contains a f := by
    refine ⟨fun _ _ _ _ _ _ h _ _ _ => h, fun _ d c h =>
      h.issued (Desk.issues_answer e.config client.noted d c), fun _ _ _ _ id q h hq => ?_⟩
    exact h.ended (Registry.contains_iff.2 ⟨q, hq⟩)
  have hstart : Agreed [] e.index.contains e.index.active e.front := h.applied fun id =>
    .inl ⟨rfl, Iff.rfl⟩
  obtain ⟨x, past, hx⟩ := visited_add hc hkept hstart s t ttl
  have hsame : ∀ id, x.contains id = e.index.contains id := fun id => by
    rw [QueryIndex.contains, QueryIndex.contains, Registry.contains_eq, Registry.contains_eq,
      isSome_get?, isSome_get?, hx.settled id]
  have hindex := hx.index
  rw [hfine, if_neg Bool.false_ne_true] at hindex
  have hshare := share_foldl_unregister past hx.consistent
  rw [← hindex] at hshare
  refine hx.holds.removed (fun id hin => ?_) fun id hout => ?_
  · have hdropped := hshare id
    rw [if_pos hin] at hdropped
    exact gone_of_drop hdropped ((hsame id).trans (hx.holds.past id hin))
  · have hstays := hshare id
    rw [if_neg hout] at hstays
    obtain ⟨hreg, hactive⟩ := same_of_share hstays
    exact ⟨hreg.trans (hsame id), hactive⟩

/-- Unless a subscriber fails, a request that is applied leaves the flags what the records will be. -/
theorem flagged_apply (client : Client σ) (hc : e.index.Consistent []) (h : (e.push r).Flagged)
    (s : σ) (log : List Happening) (hfine : (apply client.noted e (s, log) r).failed = false) :
    (apply client.noted e (s, log) r).engine.Flagged := by
  cases r with
  | register r =>
    rcases apply_register client.noted e (s, log) r with ⟨y, hy, happlied⟩ | ⟨_, -, happlied⟩
    · rw [happlied]
      exact h.registered hy
    · rw [happlied]
      exact h.refused
  | unregister i => exact h.unregistered hc
  | renew i ttl =>
    exact h.takesOut (fun _ _ => rfl) (takesOut_renew hc i ttl e.front.clock.now)
  | removeExpired =>
    have hkept := h.takesOut (fun _ _ => rfl) (takesOut_removeExpired hc e.front.clock.now)
    exact ⟨hkept.flags, hkept.past, hkept.old, hkept.fresh, hkept.once⟩
  | clear => exact h.takesOut (fun _ _ => rfl) fun id => takesOut_of_drop (share_clear hc id)
  | add t ttl => exact h.added hc client s log hfine

theorem Flagged.stands {e' : Engine} (h : e.Flagged) (hs : e.Stands e') : e'.Flagged := by
  have hagreed := h.alike hs.front
  have hreg : e'.index.contains = e.index.contains := by
    rw [hs.index]
    rfl
  unfold Flagged
  rw [hreg]
  refine ⟨fun halive => ?_, hagreed.past, hagreed.old, hagreed.fresh, hagreed.once⟩
  rw [hs.alive halive]
  exact hagreed.flags halive

/-- A call that finds no request waiting issues its own like a subscriber would. -/
theorem Flagged.issued {e₀ : Engine} {c : Command} (h : e.Flagged) (hqueue : e.front.queue = [])
    (hout : e.outset c = some (r, e₀)) : (e₀.push r).Flagged := by
  obtain ⟨-, hindex, hsame, hissues⟩ := issues_outset hout
  have hreg : (e₀.push r).index.contains = e.index.contains := by
    show e₀.index.contains = e.index.contains
    rw [hindex]
    rfl
  have hfront : (e₀.push r).front = { e₀.front with queue := e.front.queue ++ [r] } := by
    unfold push
    rw [hsame, hqueue]
    rfl
  unfold Flagged
  rw [hreg, hfront]
  exact Agreed.issued h hissues

/-- The flags are what the records will be, if no request has failed. -/
theorem upheld_flagged (client : Client σ) : Upheld client fun e _ points => e.Sound ∧
    ((∀ p ∈ points, (p.applied client.noted).failed = false) → e.Flagged) := by
  refine .of_sound (fun h hs hfine => (h hfine).stands hs) fun {e log points r} hsound h s _ hfine => ?_
  obtain ⟨hfine, hlast⟩ := List.forall_mem_append.1 hfine
  exact flagged_apply client (e := e) hsound.consistent (h hfine) s log (hlast _ List.mem_cons_self)

theorem flagged_new (config : Config) (clock : Clock) : (Engine.new config clock).Flagged := by
  refine ⟨fun _ id => ?_, ?_, fun id hid => ?_, ?_, List.nodup_nil⟩
  · simp [Engine.new, QueryIndex.new, QueryIndex.contains, Registry.contains]
  · simp
  · simp [Engine.new, QueryIndex.new, QueryIndex.contains, Registry.contains] at hid
  · simp [Engine.new, enrolled]

end Engine

namespace Course
open Engine

/-- If all calls return, then between them the flags are what the records are. -/
theorem flagged_run (client : Client σ) (config : Config) (clock : Clock) (s : σ)
    (moves : List (Move σ)) (hreturned : (run client config clock s moves).Unbroken) :
    (run client config clock s moves).Settled client ∧
      (run client config clock s moves).engine.Flagged := by
  have hstep : ∀ (x : Course σ) (c : Command) (fuel : Nat), x.engine.Sound → x.Settled client →
      x.engine.Flagged → (x.next client (.call c fuel)).Settled client →
      (x.next client (.call c fuel)).engine.Flagged := by
    intro x c fuel hsound hsettled hflagged hafter
    refine ((upheld_flagged client).execute (c := c) x.points (fun _ _ _ _ h => ?_)
      (fun r e₀ hout => ?_) fuel x.state ⟨hsound, fun _ => hflagged⟩).2 hafter.fine
    · refine ⟨h.1.counted _, fun hfine => ?_⟩
      have hflags := h.2 hfine
      exact ⟨hflags.flags, hflags.past, hflags.old, hflags.fresh, hflags.once⟩
    · exact ⟨hsound.issued hout, fun _ => hflagged.issued hsettled.queue hout⟩
  exact unbroken_induct client config clock s (I := fun x => x.engine.Flagged)
    (flagged_new config clock) (fun _ _ h => h) (fun x h => h.stands (.of_front (.signals _ 0))) hstep
    moves hreturned

/-- The active queries are the registered ones then. -/
theorem mem_active_run {client : Client σ} {config : Config} {clock : Clock} {s : σ}
    {moves : List (Move σ)} (hreturned : (run client config clock s moves).Unbroken)
    (halive : (run client config clock s moves).engine.front.alive = true) (id : QueryId) :
    id ∈ (run client config clock s moves).engine.index.active ↔
      (run client config clock s moves).engine.index.contains id = true := by
  obtain ⟨hsettled, hflagged⟩ := flagged_run client config clock s moves hreturned
  rw [hflagged.flags halive, hsettled.queue]
  simp

end Course

/-! ### What is counted -/

/-- A map is as large as the set of the keys that have something. -/
theorem encard_found {α β : Type} [Ord α] [TransOrd α] [LawfulEqOrd α] (m : ExtTreeMap α β) :
    {a : α | m[a]?.isSome}.encard = m.size := by
  classical
  have hkeys : {a : α | m[a]?.isSome} = (m.keys.toFinset : Set α) := by
    ext a
    rw [List.coe_toFinset, Set.mem_ofPred_eq, Set.mem_ofPred_eq, ExtTreeMap.mem_keys,
      ExtTreeMap.mem_iff_isSome_getElem?]
  rw [hkeys, Set.encard_coe_eq_coe_finsetCard, List.toFinset_card_of_nodup ExtTreeMap.nodup_keys,
    ExtTreeMap.length_keys]

/-- The joins hold as many partial solutions as they say. -/
theorem JoinState.encard_held (j : JoinState) : {n | (j.held n).isSome}.encard = j.size := by
  cases j with
  | symmetric s => exact encard_found s.solutions
  | caching c =>
    have hheld : {n | ((caching c).held n).isSome} = {n | (c.get? n).isSome} := by
      ext n
      show ((c.get? n).map ofMatch).isSome ↔ (c.get? n).isSome
      rw [Option.isSome_map]
    rw [hheld]
    exact encard_found c.solutions

/-- Whatever the subscribers do short of failing, whenever no call is under way the handles and the
index agree: no request is waiting, the sizes that have been made known are the numbers of the
queries that are registered and of the partial solutions that are held, and a query is active if and
only if it is registered. (When the engine has been given up there is no index left to agree
with.) -/
theorem handles_agree (client : Client σ) (config : Config) (clock : Clock) (s : σ)
    (moves : List (Move σ)) (hreturned : (Course.run client config clock s moves).Unbroken) :
    let e := (Course.run client config clock s moves).engine
    e.front.queue = [] ∧ e.front.queryCount = e.index.queryIds.length ∧
      {id | (e.index.registry.get? id).isSome}.encard = e.front.queryCount ∧
      {n | (e.index.joins.held n).isSome}.encard = e.front.partialCount ∧
      (e.front.alive = true → ∀ id, e.index.active.contains id = true ↔ id ∈ e.index.queryIds) := by
  obtain ⟨hsettled, -⟩ := Course.flagged_run client config clock s moves hreturned
  obtain ⟨hqueries, hpartials⟩ := Prod.mk.inj hsettled.sizes
  refine ⟨hsettled.queue, hqueries.trans (Registry.size_eq _), ?_, ?_, fun halive id => ?_⟩
  · rw [hqueries]
    exact encard_found _
  · rw [hpartials]
    exact JoinState.encard_held _
  · rw [← ExtTreeSet.mem_iff_contains, Course.mem_active_run hreturned halive]
    show _ ↔ id ∈ Registry.ids _
    rw [Registry.mem_ids, ← Registry.contains_eq]
    exact Iff.rfl

/-- A query whose subscriber registers another, ends its own and adds a loop. -/
def meddling : List (Move Bool) :=
  [.call (.register ⟨QueryIndex.twoEdges, {}⟩ 0) 0, .call (.add QueryIndex.loop 0) 3]

/-- The first query has gone with all that was stored for it. The second is there, in the index and
by its flag, and so are the loop on either of its edges and on both. -/
theorem handles_agree_meddling :
    let e := (Course.run meddler {} ⟨0⟩ false meddling).engine
    e.front.queue = [] ∧ {id | (e.index.registry.get? id).isSome}.encard = 1 ∧
      {n | (e.index.joins.held n).isSome}.encard = 3 ∧
      ∀ id, e.index.active.contains id = true ↔ id = 2 := by
  have hreturned : (Course.run meddler {} ⟨0⟩ false meddling).Unbroken := by decide +kernel
  have halive : (Course.run meddler {} ⟨0⟩ false meddling).engine.front.alive = true := by
    decide +kernel
  have hids : (Course.run meddler {} ⟨0⟩ false meddling).engine.index.queryIds = [2] := by
    decide +kernel
  have hpartials : (Course.run meddler {} ⟨0⟩ false meddling).engine.front.partialCount = 3 := by
    decide +kernel
  obtain ⟨hqueue, hqueries, hregistered, hheld, hflags⟩ :=
    handles_agree meddler {} ⟨0⟩ false meddling hreturned
  rw [hids] at hqueries hflags
  rw [hqueries] at hregistered
  rw [hpartials] at hheld
  exact ⟨hqueue, hregistered, hheld, fun id => (hflags halive id).trans List.mem_singleton⟩

end StandingQuery
