import Mathlib.Tactic
import Mathlib.Data.List.DropRight

/-!
# Tokens of a text

What a hand-written parser does to a text before it reads it: it cuts the text at a separator, and
takes the padding off both ends of the pieces.

* `trim` — a text without its padding.
* `exists_padding` — what has been taken off.
* `trim_append_left`, `trim_append_right` — padding makes no difference.
* `mem_of_mem_piece`, `exists_piece` — what the pieces of a text consist of.
-/

namespace Tokens

section Trim

variable {A : Type*} (p : A → Bool)

/-- The text without the padding, which are the elements with `p` at its two ends. -/
def trim (text : List A) : List A := (text.dropWhile p).rdropWhile p

theorem exists_padding (text : List A) :
    ∃ front back, text = front ++ trim p text ++ back ∧ (∀ c ∈ front, p c) ∧ ∀ c ∈ back, p c := by
  use text.takeWhile p, (text.dropWhile p).rtakeWhile p
  constructor
  · rw [List.append_assoc, trim, List.rdropWhile_append_rtakeWhile,
      List.takeWhile_append_dropWhile]
  · exact ⟨fun _ hc => List.mem_takeWhile_imp hc, fun _ hc => List.mem_rtakeWhile_imp hc⟩

variable {p}

theorem trim_append_left {front : List A} (hfront : ∀ c ∈ front, p c) (text : List A) :
    trim p (front ++ text) = trim p text := by
  unfold trim
  rw [List.dropWhile_append_of_pos hfront]

theorem trim_append_right (text : List A) {back : List A} (hback : ∀ c ∈ back, p c) :
    trim p (text ++ back) = trim p text := by
  induction back using List.reverseRecOn with
  | nil => rw [List.append_nil]
  | append_singleton back c ih =>
      have hc : p c := hback c (by simp)
      rw [← ih fun b hb => hback b (List.mem_append_left _ hb), ← List.append_assoc]
      unfold trim
      rw [List.dropWhile_append]
      split_ifs with hempty
      · simp [List.isEmpty_iff.mp hempty, hc]
      · exact List.rdropWhile_concat_pos p _ c hc

theorem trim_eq_nil_iff {text : List A} : trim p text = [] ↔ ∀ c ∈ text, p c := by
  constructor
  · intro hnil
    obtain ⟨front, back, htext, hfront, hback⟩ := exists_padding p text
    rw [hnil, List.append_nil] at htext
    rw [htext]
    intro c hc
    exact (List.mem_append.mp hc).elim (hfront c) (hback c)
  · intro hall
    have hnil := trim_append_right (p := p) [] hall
    rw [List.nil_append] at hnil
    rw [hnil]
    rfl

theorem dropWhile_eq_self {text : List A} (hall : ∀ c ∈ text, p c = false) :
    text.dropWhile p = text := by
  cases text with
  | nil => rfl
  | cons c text => rw [List.dropWhile_cons_of_neg (by simp [hall c List.mem_cons_self])]

/-- Where nothing is padding, nothing is taken off. -/
theorem trim_eq_self {text : List A} (hall : ∀ c ∈ text, p c = false) : trim p text = text := by
  unfold trim
  rw [dropWhile_eq_self hall, List.rdropWhile_eq_self_iff]
  intro hne
  simp [hall _ (List.getLast_mem hne)]

/-- What stands behind an element that is no padding is cut by itself. -/
theorem rdropWhile_append_cons (text : List A) {c : A} (hc : p c = false) (rest : List A) :
    (text ++ c :: rest).rdropWhile p = text ++ c :: rest.rdropWhile p := by
  induction rest using List.reverseRecOn with
  | nil => exact List.rdropWhile_concat_neg p text c (by simp [hc])
  | append_singleton rest d ih =>
      have hsnoc : text ++ c :: (rest ++ [d]) = (text ++ c :: rest) ++ [d] := by simp
      rw [hsnoc, List.rdropWhile_concat, List.rdropWhile_concat]
      split_ifs
      · exact ih
      · exact hsnoc.symm

theorem trim_append_cons {text : List A} (hall : ∀ c ∈ text, p c = false) {c : A}
    (hc : p c = false) (rest : List A) :
    trim p (text ++ c :: rest) = text ++ c :: rest.rdropWhile p := by
  have hdrop : (text ++ c :: rest).dropWhile p = text ++ c :: rest := by
    cases text with
    | nil => exact List.dropWhile_cons_of_neg (by simp [hc])
    | cons d text => exact List.dropWhile_cons_of_neg (by simp [hall d List.mem_cons_self])
  rw [trim, hdrop, rdropWhile_append_cons text hc]

end Trim

section Pieces

variable {A : Type*} [DecidableEq A] {sep : A} {text piece : List A} {c : A}

theorem mem_of_mem_piece (hpiece : piece ∈ text.splitOn sep) (hc : c ∈ piece) : c ∈ text := by
  induction text generalizing piece with
  | nil =>
      rw [List.splitOn_nil, List.mem_singleton] at hpiece
      rwa [hpiece] at hc
  | cons x text ih =>
      rw [List.splitOn_cons_eq_if_modifyHead] at hpiece
      obtain ⟨first, rest, hsplit⟩ :=
        List.exists_cons_of_ne_nil (List.splitOn_ne_nil sep text)
      rw [hsplit] at hpiece ih
      split_ifs at hpiece
      · rcases List.mem_cons.mp hpiece with rfl | hpiece
        · exact absurd hc List.not_mem_nil
        · exact List.mem_cons_of_mem x (ih hpiece hc)
      · rcases List.mem_cons.mp hpiece with rfl | hpiece
        · rcases List.mem_cons.mp hc with rfl | hc
          · exact List.mem_cons_self
          · exact List.mem_cons_of_mem x (ih List.mem_cons_self hc)
        · exact List.mem_cons_of_mem x (ih (List.mem_cons_of_mem _ hpiece) hc)

theorem exists_piece (hc : c ∈ text) (hne : c ≠ sep) : ∃ piece ∈ text.splitOn sep, c ∈ piece := by
  induction text with
  | nil => exact absurd hc List.not_mem_nil
  | cons x text ih =>
      rw [List.splitOn_cons_eq_if_modifyHead]
      obtain ⟨first, rest, hsplit⟩ :=
        List.exists_cons_of_ne_nil (List.splitOn_ne_nil sep text)
      rw [hsplit] at ih ⊢
      split_ifs with hx
      · have hin : c ∈ text :=
          (List.mem_cons.mp hc).resolve_left fun heq => hne (heq.trans (beq_iff_eq.mp hx))
        obtain ⟨piece, hpiece, hmem⟩ := ih hin
        exact ⟨piece, List.mem_cons_of_mem _ hpiece, hmem⟩
      · rw [List.modifyHead_cons]
        rcases List.mem_cons.mp hc with rfl | hin
        · exact ⟨c :: first, List.mem_cons_self, List.mem_cons_self⟩
        · obtain ⟨piece, hpiece, hmem⟩ := ih hin
          rcases List.mem_cons.mp hpiece with rfl | hpiece
          · exact ⟨x :: piece, List.mem_cons_self, List.mem_cons_of_mem x hmem⟩
          · exact ⟨piece, List.mem_cons_of_mem _ hpiece, hmem⟩

end Pieces

end Tokens
