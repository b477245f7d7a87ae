import Mathlib.Data.List.TakeWhile
import StandingQuery.Text.CharClass

/-! What all readers of texts share.

A reader takes the longest run of a class of characters and goes on behind it, or it is
refused; so what it gives back is known as soon as it is known where the run stops
(`takeWhile_append_of_stop`). Classes are ranges of code points, and classes without a
common character are found by comparing the ends of their ranges (`inRanges_disjoint`).
White space in front of a text and behind it is cut off (`trim_between`). -/
namespace StandingQuery.Text

/-! ### Results -/

section
variable {α β ε : Type}

theorem map_eq_ok_iff {f : α → β} {x : Except ε α} {b : β} :
    x.map f = .ok b ↔ ∃ a, x = .ok a ∧ f a = b := by
  cases x <;> simp [Except.map]

theorem bind_eq_ok_iff {x : Except ε α} {f : α → Except ε β} {b : β} :
    x >>= f = .ok b ↔ ∃ a, x = .ok a ∧ f a = .ok b := by
  cases x <;> simp [bind, Except.bind]

end

/-! ### Runs -/

section
variable {α : Type} {p : α → Bool} {l r : List α}

theorem takeWhile_append_of_stop (hl : ∀ a ∈ l, p a = true) (hr : ∀ a ∈ r.head?, p a = false) :
    (l ++ r).takeWhile p = l := by
  rw [List.takeWhile_append_of_pos hl]
  cases r with
  | nil => simp
  | cons a r => simp [hr a rfl]

theorem dropWhile_append_of_stop (hl : ∀ a ∈ l, p a = true) (hr : ∀ a ∈ r.head?, p a = false) :
    (l ++ r).dropWhile p = r := by
  rw [List.dropWhile_append_of_pos hl]
  cases r with
  | nil => rfl
  | cons a r => simp [hr a rfl]

end

/-! ### Classes -/

/-- What holds of every character of a text is decided along the text: there are only finitely
many characters, and without this they would all be tried. -/
instance (priority := 1100) decidableText (s : List Char) (p : Char → Prop) [DecidablePred p] :
    Decidable (∀ c ∈ s, p c) :=
  List.decidableBAll p s

variable {c : Char} {s v w : List Char}

theorem inRanges_iff {ranges : List (Nat × Nat)} :
    inRanges ranges c = true ↔ ∃ r ∈ ranges, r.1 ≤ c.toNat ∧ c.toNat ≤ r.2 := by
  simp [inRanges]

/-- Classes whose ranges lie apart have no character in common. -/
theorem inRanges_disjoint {A B : List (Nat × Nat)}
    (h : (A.all fun a => B.all fun b => a.2 < b.1 || b.2 < a.1) = true)
    (hc : inRanges A c = true) : inRanges B c = false := by
  rw [Bool.eq_false_iff]
  intro hb
  obtain ⟨a, ha, hle, hge⟩ := inRanges_iff.1 hc
  obtain ⟨b, hb, hle', hge'⟩ := inRanges_iff.1 hb
  have := List.all_eq_true.1 (List.all_eq_true.1 h a ha) b hb
  simp only [Bool.or_eq_true, decide_eq_true_eq] at this
  omega

/-- A class with larger ranges has more characters. -/
theorem inRanges_mono {A B : List (Nat × Nat)}
    (h : (A.all fun a => B.any fun b => b.1 ≤ a.1 && a.2 ≤ b.2) = true)
    (hc : inRanges A c = true) : inRanges B c = true := by
  obtain ⟨a, ha, hle, hge⟩ := inRanges_iff.1 hc
  obtain ⟨b, hb, hab⟩ := List.any_eq_true.1 (List.all_eq_true.1 h a ha)
  simp only [Bool.and_eq_true, decide_eq_true_eq] at hab
  exact inRanges_iff.2 ⟨b, hb, by omega, by omega⟩

theorem isLetter_eq : isLetter c = inRanges [(0x41, 0x5A), (0x61, 0x7A)] c := by
  have h : isLetter c = (decide (c.val ≥ 'A'.val ∧ c.val ≤ 'Z'.val) ||
      decide (c.val ≥ 'a'.val) && decide (c.val ≤ 'z'.val)) := rfl
  rw [h, Bool.eq_iff_iff]
  simp [inRanges, UInt32.le_iff_toNat_le]

theorem isDigit_ascii_eq : c.isDigit = inRanges [(0x30, 0x39)] c := by
  rw [Bool.eq_iff_iff]
  simp [Char.isDigit_iff_toNat, inRanges]

theorem isLetterOrDigit_eq :
    isLetterOrDigit c = inRanges [(0x41, 0x5A), (0x61, 0x7A), (0x30, 0x39)] c := by
  have h : isLetterOrDigit c = (isLetter c || c.isDigit) := rfl
  rw [h, isLetter_eq, isDigit_ascii_eq, inRanges, inRanges, inRanges, ← List.any_append]
  rfl

theorem isWord_of_letter (h : isLetter c = true) : isWord c = true := by
  rw [isLetter_eq] at h
  exact inRanges_mono (by decide +kernel) h

theorem isDigit_of_ascii (h : c.isDigit = true) : isDigit c = true := by
  rw [isDigit_ascii_eq] at h
  exact inRanges_mono (by decide +kernel) h

/-! ### White space -/

/-- White space and nothing else. -/
def White (s : List Char) : Prop := ∀ c ∈ s, isBlank c = true

instance : Decidable (White s) := decidableText s _

theorem trimStart_append (hw : White w) : trimStart (w ++ s) = trimStart s :=
  List.dropWhile_append_of_pos hw

theorem trimStart_of_head (hs : ∀ c ∈ s.head?, isBlank c = false) : trimStart s = s := by
  cases s with
  | nil => rfl
  | cons c s => simp [trimStart, hs c rfl]

theorem trimEnd_append (hw : White w) : trimEnd (s ++ w) = trimEnd s := by
  unfold trimEnd
  rw [List.reverse_append, List.dropWhile_append_of_pos fun c hc => hw c (List.mem_reverse.1 hc)]

theorem trimEnd_of_last (hs : ∀ c ∈ s.getLast?, isBlank c = false) : trimEnd s = s := by
  unfold trimEnd
  have h : s.reverse.dropWhile isBlank = s.reverse :=
    trimStart_of_head fun c hc => hs c (by rwa [List.head?_reverse] at hc)
  rw [h, List.reverse_reverse]

theorem trim_append (hw : White w) : trim (w ++ s) = trim s := by
  rw [trim, trimStart_append hw, trim]

theorem trim_white (hw : White w) : trim w = [] := by
  simpa [trim, trimEnd, trimStart] using trim_append (s := []) hw

/-- Nothing but white space is trimmed away. -/
theorem white_of_trim (h : trim s = []) : White s := by
  have hend : White (trimStart s) := by
    have hall := List.dropWhile_eq_nil_iff.1 (List.reverse_eq_nil_iff.1 h)
    exact fun c hc => hall c (List.mem_reverse.2 hc)
  intro c hc
  rw [← List.takeWhile_append_dropWhile (p := isBlank) (l := s)] at hc
  rcases List.mem_append.1 hc with hc | hc
  · exact List.mem_takeWhile_imp hc
  · exact hend c hc

theorem trim_between (hw : White w) (hv : White v) (hhead : ∀ c ∈ s.head?, isBlank c = false)
    (hlast : ∀ c ∈ s.getLast?, isBlank c = false) : trim (w ++ s ++ v) = s := by
  rw [List.append_assoc, trim_append hw]
  cases s with
  | nil => exact trim_white hv
  | cons c s =>
    rw [trim, List.cons_append, trimStart_of_head (by simpa using hhead), ← List.cons_append,
      trimEnd_append hv, trimEnd_of_last hlast]

end StandingQuery.Text
