import Mathlib.Data.List.DropRight

set_option autoImplicit false

/-! # Trimming lists

What `dropWhile` and `rdropWhile` take off the ends of a list, told by how the list is put together: a padding that `p`
accepts, and a rest that is bare where it was trimmed. -/

namespace Trimming

variable {α : Type} {p : α → Bool} {s t w w' : List α}

/-- All of the list can be taken off. -/
def Padding (p : α → Bool) (w : List α) : Prop := ∀ a ∈ w, p a = true

/-- Nothing can be taken off at the start. -/
def StartsBare (p : α → Bool) (t : List α) : Prop := ∀ a ∈ t.head?, p a = false

/-- Nothing can be taken off at the end. -/
def EndsBare (p : α → Bool) (t : List α) : Prop := ∀ a ∈ t.getLast?, p a = false

/-- The list without what can be taken off at its ends. -/
def trim (p : α → Bool) (s : List α) : List α := (s.dropWhile p).rdropWhile p

theorem padding_nil : Padding p ([] : List α) := fun _ ha => absurd ha List.not_mem_nil

theorem padding_reverse (h : Padding p w) : Padding p w.reverse := fun a ha => h a (List.mem_reverse.1 ha)

theorem endsBare_iff_reverse : EndsBare p t ↔ StartsBare p t.reverse := by
  rw [EndsBare, StartsBare, List.head?_reverse]

/-! ## At the start -/

theorem dropWhile_padded (hw : Padding p w) (ht : StartsBare p t) : (w ++ t).dropWhile p = t := by
  rw [List.dropWhile_append_of_pos hw]
  cases t with
  | nil => rfl
  | cons a t => exact List.dropWhile_cons_of_neg (by simp [ht a rfl])

theorem exists_padding (p : α → Bool) (s : List α) : ∃ w, s = w ++ s.dropWhile p ∧ Padding p w :=
  ⟨s.takeWhile p, List.takeWhile_append_dropWhile.symm, fun _ ha => List.mem_takeWhile_imp ha⟩

theorem startsBare_dropWhile (p : α → Bool) (s : List α) : StartsBare p (s.dropWhile p) := by
  intro a ha
  have hnot := List.head?_dropWhile_not p s
  rw [Option.mem_def.1 ha] at hnot
  simpa using hnot

theorem StartsBare.initial (h : StartsBare p s) (hts : t <+: s) : StartsBare p t := by
  obtain ⟨rest, rfl⟩ := hts
  intro a ha
  cases t with
  | nil => cases ha
  | cons b t => exact h a ha

theorem startsBare_append (h : StartsBare p t) (hne : t ≠ []) (s : List α) : StartsBare p (t ++ s) := by
  intro a ha
  cases t with
  | nil => exact absurd rfl hne
  | cons b t => exact h a ha

/-! ## At the end -/

theorem rdropWhile_padded (hw : Padding p w) (ht : EndsBare p t) : (t ++ w).rdropWhile p = t := by
  rw [List.rdropWhile, List.reverse_append, dropWhile_padded (padding_reverse hw) (endsBare_iff_reverse.1 ht),
    List.reverse_reverse]

theorem exists_padding_back (p : α → Bool) (s : List α) : ∃ w, s = s.rdropWhile p ++ w ∧ Padding p w := by
  obtain ⟨w, hs, hw⟩ := exists_padding p s.reverse
  refine ⟨w.reverse, ?_, padding_reverse hw⟩
  rw [List.rdropWhile, ← List.reverse_append, ← hs, List.reverse_reverse]

theorem endsBare_rdropWhile (p : α → Bool) (s : List α) : EndsBare p (s.rdropWhile p) := by
  rw [endsBare_iff_reverse, List.rdropWhile, List.reverse_reverse]
  exact startsBare_dropWhile p s.reverse

theorem EndsBare.of_suffix (h : EndsBare p s) (hts : t <:+ s) : EndsBare p t := by
  rw [endsBare_iff_reverse] at h ⊢
  exact h.initial ( List.reverse_prefix.2 hts)

theorem endsBare_append (h : EndsBare p t) (hne : t ≠ []) (s : List α) : EndsBare p (s ++ t) := by
  rw [endsBare_iff_reverse] at h ⊢
  rw [List.reverse_append]
  exact startsBare_append h (by simpa using hne) s.reverse

/-! ## At both ends -/

theorem trim_padded (hw : Padding p w) (hw' : Padding p w') (hs : StartsBare p t) (he : EndsBare p t) :
    trim p (w ++ t ++ w') = t := by
  rw [trim, List.append_assoc]
  by_cases hne : t = []
  · subst hne
    rw [List.nil_append, List.dropWhile_append_of_pos hw, List.dropWhile_eq_nil_iff.2 hw']
    rfl
  · rw [dropWhile_padded hw (startsBare_append hs hne w'), rdropWhile_padded hw' he]

theorem exists_paddings (p : α → Bool) (s : List α) :
    ∃ w w', s = w ++ trim p s ++ w' ∧ Padding p w ∧ Padding p w' := by
  obtain ⟨w, hs, hw⟩ := exists_padding p s
  obtain ⟨w', hd, hw'⟩ := exists_padding_back p (s.dropWhile p)
  refine ⟨w, w', ?_, hw, hw'⟩
  rw [trim, List.append_assoc, ← hd, ← hs]

theorem startsBare_trim (p : α → Bool) (s : List α) : StartsBare p (trim p s) :=
  (startsBare_dropWhile p s).initial ( List.rdropWhile_prefix ..)

theorem endsBare_trim (p : α → Bool) (s : List α) : EndsBare p (trim p s) := endsBare_rdropWhile p _

/-- What cannot be taken off at the end stays there. -/
theorem getLast?_trim {a : α} (ha : a ∈ s.getLast?) (hp : p a = false) : a ∈ (trim p s).getLast? := by
  have hback : ∀ l w : List α, a ∈ (l ++ w).getLast? → Padding p w → a ∈ l.getLast? := by
    intro l w hl hw
    by_cases hne : w = []
    · rwa [hne, List.append_nil] at hl
    · rw [List.getLast?_append_of_ne_nil _ hne] at hl
      rw [hw a (List.mem_of_getLast? hl)] at hp
      cases hp
  obtain ⟨w, w', hs, hw, hw'⟩ := exists_paddings p s
  rw [hs] at ha
  have hlast := hback _ _ ha hw'
  by_cases hne : trim p s = []
  · rw [hne, List.append_nil] at hlast
    rw [hw a (List.mem_of_getLast? hlast)] at hp
    cases hp
  · rwa [List.getLast?_append_of_ne_nil _ hne] at hlast

theorem trim_of_endsBare (h : EndsBare p s) : trim p s = s.dropWhile p := by
  have hend : EndsBare p (s.dropWhile p) := h.of_suffix (List.dropWhile_suffix p)
  have hpadded := rdropWhile_padded padding_nil hend
  rwa [List.append_nil] at hpadded

/-! ## A first part -/

/-- A list is cut where its first part ends. -/
theorem span_append (hw : Padding p w) (ht : StartsBare p t) :
    (w ++ t).takeWhile p = w ∧ (w ++ t).dropWhile p = t := by
  refine ⟨?_, dropWhile_padded hw ht⟩
  rw [List.takeWhile_append_of_pos hw]
  cases t with
  | nil => simp
  | cons a t => rw [List.takeWhile_cons_of_neg (by simp [ht a rfl]), List.append_nil]

end Trimming
