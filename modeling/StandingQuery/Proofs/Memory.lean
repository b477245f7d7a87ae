import Mathlib.Data.List.DropRight
import StandingQuery.Index.Memory

/-! What memories remember.

A memory stands for the bindings that it has accepted, in the order in which they came.
`Distinctness.remembered` says what is remembered of them: all, the last few or nothing.
A binding is accepted if it is not among those, and the memory stands for one more
afterwards; a binding that is not accepted leaves no trace (`Memory.Recalls.accept`). So a
memory of reduced bindings has the last ones that it accepted, whatever came between
(`Memory.accepts_unless_recent`). -/
namespace StandingQuery
open Std

/-- What is remembered of the things that have been accepted, oldest first. -/
def Distinctness.remembered {α : Type} (d : Distinctness) (capacity : Nat) (accepted : List α) :
    List α :=
  match d with
  | .none => []
  | .distinct => accepted
  | .reduced => accepted.rtake (max capacity 1)

theorem Distinctness.remembered_map {α β : Type} (d : Distinctness) (capacity : Nat) (f : α → β)
    (accepted : List α) :
    d.remembered capacity (accepted.map f) = (d.remembered capacity accepted).map f := by
  cases d with
  | none => rfl
  | distinct => rfl
  | reduced => simp only [remembered, List.rtake, List.length_map, List.map_drop]

namespace Memory

/-- The memory of a query that has accepted these bindings. -/
inductive Recalls (capacity : Nat) (accepted : List Binding) : Distinctness → Memory → Prop where
  | none : Recalls capacity accepted .none .none
  | distinct {seen} (members : ∀ b : Binding, b ∈ seen ↔ b ∈ accepted) :
      Recalls capacity accepted .distinct (.distinct seen)
  | reduced {seen order} (recent : order = accepted.rtake (max capacity 1)) (nodup : order.Nodup)
      (members : ∀ b : Binding, b ∈ seen ↔ b ∈ order) :
      Recalls capacity accepted .reduced (.reduced (max capacity 1) seen order)

variable {capacity : Nat} {accepted : List Binding} {d : Distinctness} {m : Memory}

theorem recalls_ofDistinctness (d : Distinctness) (capacity : Nat) :
    Recalls capacity [] d (.ofDistinctness d capacity) := by
  cases d with
  | none => exact .none
  | distinct => exact .distinct (by simp)
  | reduced => exact .reduced (by simp [List.rtake]) .nil (by simp)

/-- The oldest are forgotten, as many as there are too many. -/
theorem makeRoom_order (capacity : Nat) (seen : ExtTreeSet Binding) (order : List Binding) :
    (makeRoom capacity seen order).2 = order.drop (order.length + 1 - capacity) := by
  induction order generalizing seen with
  | nil => simp [makeRoom]
  | cons oldest order ih =>
    unfold makeRoom
    rw [List.length_cons]
    split
    · rw [show order.length + 1 + 1 - capacity = order.length + 1 - capacity + 1 by omega,
        List.drop_succ_cons]
      exact ih (seen.erase oldest)
    · rw [show order.length + 1 + 1 - capacity = 0 by omega, List.drop_zero]

/-- The set of what is remembered goes along with the list. -/
theorem mem_makeRoom {seen : ExtTreeSet Binding} {order : List Binding} (hnodup : order.Nodup)
    (hmembers : ∀ b, b ∈ seen ↔ b ∈ order) (capacity : Nat) (b : Binding) :
    b ∈ (makeRoom capacity seen order).1 ↔ b ∈ (makeRoom capacity seen order).2 := by
  induction order generalizing seen with
  | nil => exact hmembers b
  | cons oldest order ih =>
    obtain ⟨hfirst, hnodup⟩ := List.nodup_cons.1 hnodup
    unfold makeRoom
    split
    · refine ih hnodup fun b => ?_
      rw [ExtTreeSet.mem_erase, hmembers, List.mem_cons, ne_eq, Std.compare_eq_iff_eq]
      constructor
      · intro ⟨hne, hb⟩
        exact hb.resolve_left fun e => hne e.symm
      · intro hb
        exact ⟨fun e => hfirst (e ▸ hb), .inr hb⟩
    · exact hmembers b

/-- Of a full memory the oldest binding goes when the next one comes. -/
theorem rtake_concat {n : Nat} (hn : 0 < n) (accepted : List Binding) (b : Binding) :
    (accepted ++ [b]).rtake n =
      (accepted.rtake n).drop ((accepted.rtake n).length + 1 - n) ++ [b] := by
  unfold List.rtake
  rw [List.drop_drop, List.drop_append, List.length_drop, List.length_append, List.length_singleton,
    show accepted.length + 1 - n - accepted.length = 0 by omega, List.drop_zero]
  congr 2
  omega

/-- A binding is accepted if it is not remembered, and the memory keeps track. -/
theorem Recalls.accept (h : Recalls capacity accepted d m) (b : Binding) :
    (m.accept b).1 = !(d.remembered capacity accepted).contains b ∧
      Recalls capacity (if b ∈ d.remembered capacity accepted then accepted else accepted ++ [b]) d
        (m.accept b).2 := by
  cases h with
  | none => exact ⟨rfl, .none⟩
  | @distinct seen members =>
    have hcontains : seen.contains b = accepted.contains b := by
      rw [Bool.eq_iff_iff, ← ExtTreeSet.mem_iff_contains, members, List.contains_iff_mem]
    refine ⟨congrArg Bool.not hcontains, .distinct fun b' => ?_⟩
    rw [ExtTreeSet.mem_insert, Std.compare_eq_iff_eq, members, Distinctness.remembered]
    split
    · next hb =>
      constructor
      · intro h
        rcases h with rfl | h
        · exact hb
        · exact h
      · exact .inr
    · rw [List.mem_append, List.mem_singleton, or_comm, eq_comm]
  | @reduced seen order recent nodup members =>
    have hcontains : seen.contains b = order.contains b := by
      rw [Bool.eq_iff_iff, ← ExtTreeSet.mem_iff_contains, members, List.contains_iff_mem]
    unfold Memory.accept Distinctness.remembered
    dsimp only
    rw [hcontains, ← recent]
    by_cases hb : b ∈ order
    · rw [if_pos (List.contains_iff_mem.2 hb), if_pos hb]
      exact ⟨by simp [hb], .reduced recent nodup members⟩
    · rw [if_neg (mt List.contains_iff_mem.1 hb), if_neg hb]
      have horder := makeRoom_order (max capacity 1) seen order
      have hseen := mem_makeRoom nodup members (max capacity 1)
      refine ⟨by simp [hb], .reduced ?_ ?_ fun b' => ?_⟩
      · rw [horder, rtake_concat (by omega), ← recent]
      · rw [horder, List.nodup_append]
        refine ⟨nodup.sublist (List.drop_sublist _ _), List.pairwise_singleton _ b, ?_⟩
        intro b' hb' b'' hb'' e
        rw [List.mem_singleton.1 hb''] at e
        exact hb (e ▸ List.mem_of_mem_drop hb')
      · rw [ExtTreeSet.mem_insert, Std.compare_eq_iff_eq, hseen, List.mem_append,
          List.mem_singleton, or_comm, eq_comm]

/-! ### One binding after another -/

/-- Offers bindings one after another: those that are accepted, and the memory afterwards. -/
def acceptAll (m : Memory) : List Binding → List Binding × Memory
  | [] => ([], m)
  | b :: bs =>
    let (accepted, m) := m.accept b
    let (rest, m) := m.acceptAll bs
    (if accepted then b :: rest else rest, m)

/-- The next binding is accepted unless it is remembered. -/
theorem Recalls.acceptAll_cons (h : Recalls capacity accepted d m) (b : Binding)
    (bs : List Binding) : accepted ++ (m.acceptAll (b :: bs)).1 =
      (if b ∈ d.remembered capacity accepted then accepted else accepted ++ [b]) ++
        ((m.accept b).2.acceptAll bs).1 := by
  show accepted ++ (if (m.accept b).1 then b :: ((m.accept b).2.acceptAll bs).1
    else ((m.accept b).2.acceptAll bs).1) = _
  rw [(h.accept b).1]
  by_cases hb : b ∈ d.remembered capacity accepted <;> simp [hb]

/-- A memory keeps track of all that it accepts. -/
theorem Recalls.acceptAll (h : Recalls capacity accepted d m) (bs : List Binding) :
    Recalls capacity (accepted ++ (m.acceptAll bs).1) d (m.acceptAll bs).2 := by
  induction bs generalizing accepted m with
  | nil =>
    rw [Memory.acceptAll, List.append_nil]
    exact h
  | cons b bs ih =>
    rw [h.acceptAll_cons]
    exact ih (h.accept b).2

/-- A memory of distinct bindings has accepted, once, whatever has been offered to it. -/
theorem Recalls.mem_acceptAll (h : Recalls capacity accepted .distinct m) (bs : List Binding)
    (b : Binding) : b ∈ accepted ++ (m.acceptAll bs).1 ↔ b ∈ accepted ++ bs := by
  induction bs generalizing accepted m with
  | nil => rfl
  | cons b' bs ih =>
    rw [h.acceptAll_cons, ih (h.accept b').2, Distinctness.remembered]
    by_cases hb : b' ∈ accepted
    · rw [if_pos hb, List.mem_append, List.mem_append, List.mem_cons]
      constructor
      · exact Or.imp_right .inr
      · rintro (hold | rfl | hnew)
        · exact .inl hold
        · exact .inl hb
        · exact .inr hnew
    · rw [if_neg hb, ← List.append_cons]

theorem Recalls.accept_eq_true_iff (h : Recalls capacity accepted d m) (b : Binding) :
    (m.accept b).1 = true ↔ b ∉ d.remembered capacity accepted := by
  rw [(h.accept b).1, Bool.not_eq_true', ← Bool.not_eq_true, List.contains_iff_mem]

/-- A memory of reduced bindings has the last ones both as a list and as a set. -/
theorem Recalls.eq_reduced (h : Recalls capacity accepted .reduced m) :
    ∃ seen, m = .reduced (max capacity 1) seen (accepted.rtake (max capacity 1)) ∧
      (accepted.rtake (max capacity 1)).Nodup ∧
      ∀ b, b ∈ seen ↔ b ∈ accepted.rtake (max capacity 1) := by
  cases h with
  | @reduced seen order recent nodup members =>
    subst recent
    exact ⟨seen, rfl, nodup, members⟩

theorem length_rtake (accepted : List Binding) (n : Nat) :
    (accepted.rtake n).length = min n accepted.length := by
  unfold List.rtake
  rw [List.length_drop]
  omega

theorem size_eq_length {seen : ExtTreeSet Binding} {order : List Binding} (hnodup : order.Nodup)
    (hmembers : ∀ b, b ∈ seen ↔ b ∈ order) : seen.size = order.length := by
  have hdistinct : seen.toList.Nodup := ExtTreeSet.distinct_toList.imp fun {a b} hne e => hne (by
    rw [e]
    exact ReflOrd.compare_self)
  rw [← ExtTreeSet.length_toList]
  refine ((List.perm_ext_iff_of_nodup hdistinct hnodup).2 fun b => ?_).length_eq
  rw [ExtTreeSet.mem_toList, hmembers]

/-- Whatever has been offered to a memory of reduced bindings, it remembers the last ones that it
has accepted, as many as there is room for, each once, and the next binding is accepted if it is
not one of them. A memory of distinct bindings accepts what is offered for the first time. -/
theorem accepts_unless_recent (capacity : Nat) (bs : List Binding) (b : Binding) :
    let offered := (Memory.ofDistinctness .reduced capacity).acceptAll bs
    let recent := offered.1.rtake (max capacity 1)
    ((offered.2.accept b).1 = true ↔ b ∉ recent) ∧
      (∃ seen, offered.2 = .reduced (max capacity 1) seen recent ∧
        ∀ b', b' ∈ seen ↔ b' ∈ recent) ∧
      recent.Nodup ∧ recent.length ≤ max capacity 1 ∧
      offered.2.size = min (max capacity 1) offered.1.length ∧
      ((((Memory.ofDistinctness .distinct capacity).acceptAll bs).2.accept b).1 = true ↔
        b ∉ bs) := by
  intro offered recent
  have hreduced : Recalls capacity offered.1 .reduced offered.2 :=
    (recalls_ofDistinctness .reduced capacity).acceptAll bs
  have hdistinct := (recalls_ofDistinctness .distinct capacity).acceptAll bs
  have hoffered := (recalls_ofDistinctness .distinct capacity).mem_acceptAll bs b
  have hlength : recent.length = min (max capacity 1) offered.1.length := length_rtake ..
  obtain ⟨seen, hmemory, hnodup, hmembers⟩ := hreduced.eq_reduced
  refine ⟨hreduced.accept_eq_true_iff b, ⟨seen, hmemory, hmembers⟩, hnodup, by omega, ?_,
    (hdistinct.accept_eq_true_iff b).trans (not_congr hoffered)⟩
  rw [hmemory, Memory.size, size_eq_length hnodup hmembers, length_rtake]

/-- With room for two, a binding that is refused keeps its place and is the next to be forgotten;
when it comes back it goes to the end. -/
example : let bind (t : String) : Binding := (∅ : Binding).insert ⟨"x"⟩ ⟨t⟩
    ((Memory.ofDistinctness .reduced 2).acceptAll
      [bind "a", bind "b", bind "a", bind "c", bind "a", bind "c"]).1 =
        [bind "a", bind "b", bind "c", bind "a"] := by decide +kernel

end Memory

end StandingQuery
