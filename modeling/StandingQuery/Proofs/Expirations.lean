import Mathlib.Tactic.ByContra
import StandingQuery.Index.Expirations
import StandingQuery.Proofs.Buckets
import StandingQuery.Proofs.Lifetime

/-! What the book of expirations says.

The book is a partial function from entries to instants, kept twice (`Sound`). Each
operation is stated by what it does to that function, and what is due at `now` is
every entry whose instant is at most `now`, in one order (`ordered_due`). -/
namespace StandingQuery
open Std

namespace Expirations

variable {x : Expirations} {e f : Mortal} {expiration : Expiration} {now t : Nat}

/-- Both sides of the book say the same. -/
structure Sound (x : Expirations) : Prop where
  agree : ∀ (t : Nat) (e : Mortal), e ∈ x.byTime.find t ↔ x.find? e = some t
  tidy : x.byTime.Tidy
  le_latest : ∀ e t, x.find? e = some t → t ≤ latest

theorem sound_empty : Sound {} where
  agree t e := by simp [find?, Buckets.find_empty]
  tidy := Buckets.tidy_empty
  le_latest _ _ h := by cases h

/-! ### Striking out and writing down -/

theorem find?_untrack : (x.untrack e).find? f = if e = f then none else x.find? f := by
  unfold untrack find?
  cases he : x.byEntry[e]? with
  | none =>
    by_cases h : e = f
    · rw [if_pos h, ← h]
      exact he
    · rw [if_neg h]
  | some t =>
    show (x.byEntry.erase e)[f]? = _
    rw [ExtTreeMap.getElem?_erase]
    by_cases h : e = f <;> simp [h]

theorem find?_track :
    (x.track e expiration).find? f = if e = f then expiration.millis? else x.find? f := by
  cases expiration with
  | never => exact find?_untrack
  | instant t =>
    show ((x.untrack e).byEntry.insert e t)[f]? = _
    rw [ExtTreeMap.getElem?_insert]
    by_cases h : e = f
    · simp [h, Expiration.millis?]
    · have hf := find?_untrack (x := x) (e := e) (f := f)
      rw [if_neg h] at hf ⊢
      rw [← hf]
      simp [h, find?]

theorem find?_foldl_untrack (l : List Mortal) :
    (l.foldl (fun x e => x.untrack e) x).find? f = if f ∈ l then none else x.find? f := by
  induction l generalizing x with
  | nil => simp
  | cons e l ih =>
    rw [List.foldl_cons, ih, find?_untrack]
    by_cases hl : f ∈ l
    · simp [hl]
    · by_cases he : e = f
      · simp [he]
      · simp [hl, he, Ne.symm he]

theorem sound_untrack (h : x.Sound) (e : Mortal) : (x.untrack e).Sound := by
  cases he : x.find? e with
  | none =>
    have : x.untrack e = x := by
      unfold untrack
      rw [show x.byEntry[e]? = none from he]
    rw [this]
    exact h
  | some t =>
    have hx : x.untrack e = { byTime := x.byTime.discard t e, byEntry := x.byEntry.erase e } := by
      unfold untrack
      rw [show x.byEntry[e]? = some t from he]
    constructor
    · intro s f
      rw [find?_untrack, hx, Buckets.mem_find_discard, h.agree]
      by_cases hf : e = f
      · subst hf
        simp only [he, Option.some.injEq, and_true, if_true, reduceCtorEq, iff_false, not_and,
          Classical.not_not]
        exact fun hs => hs.symm
      · simp [hf, Ne.symm hf]
    · rw [hx]
      exact Buckets.tidy_discard h.tidy
    · intro f s hs
      rw [find?_untrack] at hs
      split at hs
      · cases hs
      · exact h.le_latest f s hs

theorem sound_track (h : x.Sound) (e : Mortal) (expiration : Expiration)
    [htimely : expiration.Timely] : (x.track e expiration).Sound := by
  cases expiration with
  | never => exact sound_untrack h e
  | instant t =>
    have hu := sound_untrack h e
    constructor
    · intro s f
      rw [find?_track]
      show f ∈ ((x.untrack e).byTime.add t e).find s ↔ _
      rw [Buckets.mem_find_add, hu.agree, find?_untrack]
      by_cases hf : e = f
      · simp [hf, Expiration.millis?, eq_comm]
      · simp [hf, Ne.symm hf]
    · exact Buckets.tidy_add hu.tidy
    · intro f s hs
      rw [find?_track] at hs
      split at hs
      · exact htimely.le_latest s hs
      · exact h.le_latest f s hs

theorem sound_foldl_untrack (h : x.Sound) (l : List Mortal) :
    (l.foldl (fun x e => x.untrack e) x).Sound := by
  induction l generalizing x with
  | nil => exact h
  | cons e l ih => exact ih (sound_untrack h e)

/-! ### What is due -/

theorem le_latest_of_bucket (h : x.Sound) {entries : ExtTreeSet Mortal compare}
    (ht : x.byTime[t]? = some entries) : t ≤ latest := by
  have hmem : t ∈ x.byTime := ExtTreeMap.mem_iff_isSome_getElem?.2 (Option.isSome_of_mem ht)
  obtain ⟨e, he⟩ := (Buckets.mem_iff_of_tidy h.tidy).1 hmem
  exact h.le_latest e t ((h.agree t e).1 he)

/-- At the last instant, too, the book is split into what is filed up to it and what is not: there
is nothing that is not. -/
theorem splitAfter_eq (h : x.Sound) (now : Nat) : x.splitAfter now =
    (x.byTime.filter fun t _ => t ≤ now, x.byTime.filter fun t _ => now < t) := by
  unfold splitAfter nextInstant?
  by_cases hnow : now < latest
  · rw [if_pos hnow]
    simp only [Nat.lt_succ_iff, Nat.succ_le_iff]
  · rw [if_neg hnow]
    have hpast : ∀ (t : Nat) (entries : ExtTreeSet Mortal compare), x.byTime[t]? = some entries → t ≤ now :=
      fun t entries ht => (le_latest_of_bucket h ht).trans (Nat.le_of_not_lt hnow)
    refine Prod.ext (ExtTreeMap.ext_getElem? fun t => ?_) (ExtTreeMap.ext_getElem? fun t => ?_)
    · dsimp only
      rw [ExtTreeMap.getElem?_filter']
      cases ht : x.byTime[t]? with
      | none => rfl
      | some entries => rw [Option.filter_some, if_pos (decide_eq_true (hpast t entries ht))]
    · dsimp only
      rw [ExtTreeMap.getElem?_filter', ExtTreeMap.getElem?_empty]
      cases ht : x.byTime[t]? with
      | none => rfl
      | some entries =>
        rw [Option.filter_some, if_neg (by simpa using hpast t entries ht)]

theorem mem_splitAfter (h : x.Sound) {entries : ExtTreeSet Mortal compare} :
    (t, entries) ∈ (x.splitAfter now).1.toList ↔ x.byTime[t]? = some entries ∧ t ≤ now := by
  rw [splitAfter_eq h, ExtTreeMap.mem_toList_iff_getElem?_eq_some, ExtTreeMap.getElem?_filter',
    Option.filter_eq_some_iff, decide_eq_true_iff]

theorem mem_toList_bucket (h : x.Sound) {entries : ExtTreeSet Mortal compare}
    (ht : x.byTime[t]? = some entries) : e ∈ entries.toList ↔ x.find? e = some t := by
  rw [ExtTreeSet.mem_toList, ← h.agree, Buckets.find, ht, Option.getD_some]

theorem mem_due (h : x.Sound) : e ∈ x.due now ↔ ∃ t, x.find? e = some t ∧ t ≤ now := by
  unfold due
  rw [List.mem_flatMap]
  constructor
  · intro ⟨⟨t, entries⟩, ht, he⟩
    obtain ⟨ht, hle⟩ := (mem_splitAfter h).1 ht
    exact ⟨t, (mem_toList_bucket h ht).1 he, hle⟩
  · intro ⟨t, ht, hle⟩
    have hfind := (h.agree t e).2 ht
    unfold Buckets.find at hfind
    cases hb : x.byTime[t]? with
    | none => simp [hb] at hfind
    | some entries =>
      rw [hb, Option.getD_some] at hfind
      exact ⟨(t, entries), (mem_splitAfter h).2 ⟨hb, hle⟩, ExtTreeSet.mem_toList.2 hfind⟩

theorem getElem?_foldl_erase {m : ExtTreeMap Mortal Nat} (l : List Mortal) :
    (l.foldl (fun m e => m.erase e) m)[f]? = if f ∈ l then none else m[f]? := by
  induction l generalizing m with
  | nil => simp
  | cons e l ih =>
    rw [List.foldl_cons, ih, ExtTreeMap.getElem?_erase]
    by_cases hl : f ∈ l
    · simp [hl]
    · by_cases he : e = f
      · simp [he]
      · simp [hl, he, Ne.symm he]

/-- Taking out what is due leaves what is not. -/
theorem find?_removeExpired :
    (x.removeExpired now).2.find? e = if e ∈ x.due now then none else x.find? e :=
  getElem?_foldl_erase _

theorem sound_removeExpired (h : x.Sound) (now : Nat) : (x.removeExpired now).2.Sound where
  agree t e := by
    rw [find?_removeExpired]
    show e ∈ Buckets.find (x.splitAfter now).2 t ↔ _
    rw [splitAfter_eq h]
    have hfind : Buckets.find (x.byTime.filter fun t _ => decide (now < t)) t =
        if now < t then x.byTime.find t else ∅ := by
      unfold Buckets.find
      rw [ExtTreeMap.getElem?_filter']
      by_cases ht : now < t <;> cases x.byTime[t]? <;> simp [ht, Option.filter]
    rw [hfind]
    by_cases ht : now < t
    · rw [if_pos ht, h.agree]
      by_cases hdue : e ∈ x.due now
      · obtain ⟨s, hs, hle⟩ := (mem_due h).1 hdue
        rw [if_pos hdue, hs, Option.some.injEq]
        exact iff_of_false (by omega) (by simp)
      · rw [if_neg hdue]
    · rw [if_neg ht]
      refine iff_of_false (by simp) fun hs => ?_
      split at hs
      · cases hs
      · next hdue => exact hdue ((mem_due h).2 ⟨t, hs, Nat.le_of_not_lt ht⟩)
  tidy k s hs := by
    replace hs : (x.splitAfter now).2[k]? = some s := hs
    rw [splitAfter_eq h, ExtTreeMap.getElem?_filter', Option.filter_eq_some_iff] at hs
    exact h.tidy k s hs.1
  le_latest e t ht := by
    rw [find?_removeExpired] at ht
    split at ht
    · cases ht
    · exact h.le_latest e t ht

/-! ### The order in which it comes out -/

/-- What is due earlier comes first, and what is due together in the order of the entries. -/
def Before (x : Expirations) (e f : Mortal) : Prop :=
  ∃ s t, x.find? e = some s ∧ x.find? f = some t ∧ (s < t ∨ s = t ∧ compare e f = .lt)

theorem ordered_due (h : x.Sound) (now : Nat) : (x.due now).Pairwise x.Before := by
  refine List.pairwise_flatMap.2 ⟨fun ⟨t, entries⟩ ht => ?_, ?_⟩
  · have hbucket := ((mem_splitAfter h).1 ht).1
    refine ExtTreeSet.ordered_toList.imp_of_mem fun he hf hlt => ?_
    exact ⟨t, t, (mem_toList_bucket h hbucket).1 he, (mem_toList_bucket h hbucket).1 hf,
      .inr ⟨rfl, hlt⟩⟩
  · have hkeys := ExtTreeMap.ordered_keys_toList (t := (x.splitAfter now).1)
    refine hkeys.imp_of_mem fun {a b} ha hb hlt e he f hf => ?_
    exact ⟨a.1, b.1, (mem_toList_bucket h ((mem_splitAfter h).1 ha).1).1 he,
      (mem_toList_bucket h ((mem_splitAfter h).1 hb).1).1 hf, .inl (Nat.compare_eq_lt.1 hlt)⟩

theorem Before.asymm (h : x.Before e f) : ¬ x.Before f e := by
  obtain ⟨s, t, hs, ht, hlt⟩ := h
  rintro ⟨t', s', ht', hs', hgt⟩
  obtain rfl : s = s' := Option.some.inj (hs.symm.trans hs')
  obtain rfl : t = t' := Option.some.inj (ht.symm.trans ht')
  rcases hlt with hlt | ⟨rfl, hlt⟩
  · omega
  · rcases hgt with hgt | ⟨-, hgt⟩
    · omega
    · rw [OrientedOrd.eq_swap, hlt] at hgt
      cases hgt

theorem nodup_due (h : x.Sound) (now : Nat) : (x.due now).Nodup :=
  (ordered_due h now).imp fun {e f} hef => by
    rintro rfl
    exact hef.asymm hef

theorem sublist_due_iff (h : x.Sound) :
    [e, f].Sublist (x.due now) ↔ e ∈ x.due now ∧ f ∈ x.due now ∧ x.Before e f := by
  constructor
  · intro hsub
    have hpair := (ordered_due h now).sublist hsub
    exact ⟨hsub.subset (by simp), hsub.subset (by simp), by simpa using hpair⟩
  · intro ⟨he, hf, hbefore⟩
    obtain ⟨l, r, hlr⟩ := List.append_of_mem he
    have hsplit := ordered_due h now
    rw [hlr] at hf hsplit ⊢
    obtain ⟨-, -, hcross⟩ := List.pairwise_append.1 hsplit
    rcases List.mem_append.1 hf with hf | hf
    · exact absurd (hcross f hf e List.mem_cons_self) hbefore.asymm
    · rcases List.mem_cons.1 hf with rfl | hf
      · exact absurd hbefore hbefore.asymm
      · exact List.sublist_append_of_sublist_right ((List.singleton_sublist.2 hf).cons_cons e)

theorem removeExpired_of_due (h : x.Sound) (hdue : x.due now = []) :
    x.removeExpired now = ([], x) := by
  have hkept : (x.byTime.filter fun t _ => decide (now < t)) = x.byTime := by
    refine ExtTreeMap.ext_getElem? fun t => ?_
    rw [ExtTreeMap.getElem?_filter']
    cases hentries : x.byTime[t]? with
    | none => rfl
    | some entries =>
      have hne : entries ≠ ∅ := ExtTreeSet.isEmpty_eq_false_iff.1 (h.tidy t entries hentries)
      have hlate : now < t := by
        by_contra hle
        refine hne (ExtTreeSet.eq_empty_iff_forall_not_mem.2 fun e he => ?_)
        have hfind : x.find? e = some t := by
          rw [← h.agree, Buckets.find, hentries, Option.getD_some]
          exact he
        have hmem : e ∈ x.due now := (mem_due h).2 ⟨t, hfind, Nat.le_of_not_lt hle⟩
        rw [hdue] at hmem
        cases hmem
      rw [Option.filter_some, if_pos (decide_eq_true hlate)]
  unfold removeExpired
  rw [splitAfter_eq h, hdue, hkept]
  rfl

end Expirations

end StandingQuery
