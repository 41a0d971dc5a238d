import Mathlib.Data.List.Basic

/-!
# Labelled fields

A text in which fields of any length stand between fixed labels, and a closing label at its
end. A field ends where the next label begins: it must not contain the first symbol of that
label (`Ends`). Then `parse` reads the fields back (`parse_compose`).
-/

namespace Fields

variable {α : Type*} [DecidableEq α]

/-- The text: each label followed by its field, then the closing label. -/
def compose : List (List α × List α) → List α → List α
  | [], closing => closing
  | (label, field) :: rest, closing => label ++ field ++ compose rest closing

/-- What follows a label at the front of a text. -/
def after : List α → List α → Option (List α)
  | [], l => some l
  | a :: label, b :: l => if a = b then after label l else none
  | _ :: _, [] => none

/-- The first symbol of the label that comes next. -/
def stop (labels : List (List α)) (closing : List α) : Option α := (labels.headD closing).head?

/-- The fields of a text with the given labels. -/
def parse : List (List α) → List α → List α → Option (List (List α))
  | [], closing, l => if l = closing then some [] else none
  | label :: labels, closing, l =>
    (after label l).bind fun l =>
      let field := l.takeWhile fun a => some a ≠ stop labels closing
      (parse labels closing (l.drop field.length)).map (field :: ·)

/-- Every field ends where the next label begins. -/
def Ends (closing : List α) : List (List α × List α) → Prop
  | [] => True
  | (_, field) :: rest =>
    (∃ a, stop (rest.map Prod.fst) closing = some a ∧ a ∉ field) ∧ Ends closing rest

omit [DecidableEq α] in
/-- A text begins with its first label. -/
theorem head_compose (fields : List (List α × List α)) (closing : List α) {a : α}
    (h : stop (fields.map Prod.fst) closing = some a) : (compose fields closing).head? = some a := by
  cases fields with
  | nil => exact h
  | cons p rest =>
    obtain ⟨label, field⟩ := p
    have hlabel : label.head? = some a := h
    unfold compose
    rw [List.append_assoc, List.head?_append, hlabel]
    rfl

theorem after_append (label l : List α) : after label (label ++ l) = some l := by
  induction label with
  | nil => rfl
  | cons a label ih => rw [List.cons_append, after, if_pos rfl, ih]

/-- A field that does not contain the stop is read up to it. -/
theorem takeWhile_stop {a : α} {field l : List α} (hf : a ∉ field) (hl : l.head? = some a) :
    (field ++ l).takeWhile (fun b => some b ≠ some a) = field := by
  obtain ⟨rest, rfl⟩ : ∃ rest, l = a :: rest := by
    cases l with
    | nil => cases hl
    | cons b rest => exact ⟨rest, by rw [Option.some.inj hl]⟩
  have hall : ∀ b ∈ field, decide (some b ≠ some a) = true := by
    intro b hb
    refine decide_eq_true fun he => hf ?_
    rw [← Option.some.inj he]
    exact hb
  rw [List.takeWhile_append_of_pos hall, List.takeWhile_cons_of_neg (by simp), List.append_nil]

/-- **The fields are read back.** -/
theorem parse_compose {closing : List α} {fields : List (List α × List α)} (h : Ends closing fields) :
    parse (fields.map Prod.fst) closing (compose fields closing) = some (fields.map Prod.snd) := by
  induction fields with
  | nil => exact if_pos rfl
  | cons p rest ih =>
    obtain ⟨label, field⟩ := p
    obtain ⟨⟨a, hstop, hf⟩, hrest⟩ := h
    have hfield := takeWhile_stop hf (head_compose rest closing hstop)
    have htext : compose ((label, field) :: rest) closing = label ++ (field ++ compose rest closing) :=
      List.append_assoc _ _ _
    rw [List.map_cons, htext]
    unfold parse
    rw [after_append, Option.bind_some, hstop]
    dsimp only
    rw [hfield, List.drop_left, ih hrest]
    rfl

end Fields
