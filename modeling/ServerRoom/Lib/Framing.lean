import Mathlib.Data.List.Basic
import Mathlib.Data.Nat.Notation

/-!
# Streams of self-delimiting frames

A frame is a header of fixed size followed by a body whose length the header
gives. A stream decomposes into complete frames and a tail that holds no complete
frame (`Decomposes`); the decomposition exists (`decomposes_exists`) and is unique
(`Decomposes.unique`). `snoc_cases` is the step of a reader that takes one element
at a time: the tail either stays incomplete or becomes exactly one frame.
-/

namespace Framing

/-- How frames delimit themselves: the header's size, and the body's length as the
header gives it. -/
structure Format (α : Type*) where
  hdr : ℕ
  body : List α → ℕ
  hdr_pos : 0 < hdr

variable {α : Type*} (F : Format α)

/-- The size of the frame that a list starts with, read from its header. -/
def Format.size (l : List α) : ℕ := F.hdr + F.body (l.take F.hdr)

/-- The list is one complete frame. -/
def Format.IsFrame (l : List α) : Prop := l.length = F.size l

/-- The list starts with a complete frame. -/
def Format.HasFrame (l : List α) : Prop := F.hdr ≤ l.length ∧ F.size l ≤ l.length

instance (l : List α) : Decidable (F.IsFrame l) := inferInstanceAs (Decidable (l.length = F.size l))

instance (l : List α) : Decidable (F.HasFrame l) :=
  inferInstanceAs (Decidable (F.hdr ≤ l.length ∧ F.size l ≤ l.length))

/-- **The decomposition of a stream**: complete frames, then a tail that does not
hold another one. -/
structure Decomposes (l : List α) (frames : List (List α)) (tail : List α) : Prop where
  eq : l = frames.flatten ++ tail
  frame : ∀ f ∈ frames, F.IsFrame f
  rest : ¬ F.HasFrame tail

variable {F}

theorem Format.IsFrame.hdr_le {l : List α} (h : F.IsFrame l) : F.hdr ≤ l.length := by
  rw [h]; exact Nat.le_add_right _ _

theorem Format.IsFrame.ne_nil {l : List α} (h : F.IsFrame l) : l ≠ [] := by
  rintro rfl
  have := h.hdr_le
  have := F.hdr_pos
  simp at *; omega

theorem Format.IsFrame.hasFrame {l : List α} (h : F.IsFrame l) : F.HasFrame l :=
  ⟨h.hdr_le, Nat.le_of_eq h.symm⟩

/-- What follows a complete header does not change the size it announces. -/
theorem size_append {l : List α} (h : F.hdr ≤ l.length) (m : List α) : F.size (l ++ m) = F.size l := by
  unfold Format.size; rw [List.take_append_of_le_length h]

/-- A frame in front is the frame that the stream starts with. -/
theorem Format.IsFrame.take_eq {f : List α} (hf : F.IsFrame f) (m : List α) :
    (f ++ m).take (F.size (f ++ m)) = f := by
  rw [size_append hf.hdr_le, ← hf, List.take_left' rfl]

theorem Format.IsFrame.hasFrame_append {f : List α} (hf : F.IsFrame f) (m : List α) :
    F.HasFrame (f ++ m) := by
  have h1 := hf.hdr_le
  refine ⟨by simp; omega, ?_⟩
  rw [size_append h1, ← hf]; simp

/-- No frame is a proper prefix of another. -/
theorem Format.IsFrame.append_eq_nil {f m : List α} (hf : F.IsFrame f) (hm : F.IsFrame (f ++ m)) :
    m = [] := by
  have h : (f ++ m).length = f.length := by rw [hm, size_append hf.hdr_le, ← hf]
  rw [List.length_append] at h
  exact List.eq_nil_of_length_eq_zero (by omega)

/-- A list that starts with a complete frame splits there. -/
theorem Format.HasFrame.split {l : List α} (h : F.HasFrame l) :
    F.IsFrame (l.take (F.size l)) := by
  have hs : F.hdr ≤ F.size l := Nat.le_add_right _ _
  unfold Format.IsFrame
  rw [List.length_take, Nat.min_eq_left h.2]
  unfold Format.size
  rw [List.take_take, Nat.min_eq_left (Nat.le_add_right _ _)]

/-- A proper prefix of a frame holds no frame. -/
theorem Format.IsFrame.not_hasFrame {t m : List α} (h : F.IsFrame (t ++ m)) (hm : m ≠ []) :
    ¬ F.HasFrame t := by
  intro ht
  have hsize : F.size (t ++ m) = F.size t := size_append ht.1 m
  have hlen : 0 < m.length := List.length_pos_iff.2 hm
  have hle := ht.2
  unfold Format.IsFrame at h
  rw [hsize, List.length_append] at h
  omega

theorem Decomposes.nil : Decomposes F ([] : List α) [] [] :=
  ⟨rfl, by simp, fun h => by have := h.1; have := F.hdr_pos; simp at *; omega⟩

/-- **Every stream decomposes.** -/
theorem decomposes_exists (l : List α) : ∃ frames tail, Decomposes F l frames tail := by
  induction hn : l.length using Nat.strongRecOn generalizing l with
  | ind n ih =>
    by_cases h : F.HasFrame l
    · have hf := h.split
      have hpos : 0 < F.size l := Nat.lt_of_lt_of_le F.hdr_pos (Nat.le_add_right _ _)
      obtain ⟨fs, t, hd⟩ := ih _ (by simp only [List.length_drop]; have := h.2; omega)
        (l.drop (F.size l)) rfl
      refine ⟨l.take (F.size l) :: fs, t, ?_, ?_, hd.rest⟩
      · rw [List.flatten_cons, List.append_assoc, ← hd.eq, List.take_append_drop]
      · intro f hf'
        rcases List.mem_cons.1 hf' with rfl | hf'
        · exact hf
        · exact hd.frame f hf'
    · exact ⟨[], l, by simp, by simp, h⟩

/-- **The decomposition is unique.** -/
theorem Decomposes.unique {l : List α} {fs fs' : List (List α)} {t t' : List α}
    (h : Decomposes F l fs t) (h' : Decomposes F l fs' t') : fs = fs' ∧ t = t' := by
  induction fs generalizing l fs' with
  | nil =>
    cases fs' with
    | nil => exact ⟨rfl, by simpa using h.eq.symm.trans h'.eq⟩
    | cons f' fs' =>
      have hl : t = f' ++ (fs'.flatten ++ t') := by simpa using h.eq.symm.trans h'.eq
      exact absurd (hl ▸ (h'.frame f' (by simp)).hasFrame_append _) h.rest
  | cons f fs ih =>
    have hf := h.frame f (by simp)
    have hl : l = f ++ (fs.flatten ++ t) := by simpa using h.eq
    cases fs' with
    | nil =>
      have hl' : t' = f ++ (fs.flatten ++ t) := by rw [← hl]; simpa using h'.eq.symm
      exact absurd (hl' ▸ hf.hasFrame_append _) h'.rest
    | cons f' fs' =>
      have hf' := h'.frame f' (by simp)
      have hl' : l = f' ++ (fs'.flatten ++ t') := by simpa using h'.eq
      have hff : f = f' := by
        rw [← hf.take_eq (fs.flatten ++ t), ← hl, hl', hf'.take_eq]
      subst hff
      have hr : fs.flatten ++ t = fs'.flatten ++ t' := List.append_cancel_left (hl.symm.trans hl')
      obtain ⟨h1, h2⟩ := ih (l := fs.flatten ++ t) ⟨rfl, fun g hg => h.frame g (by simp [hg]), h.rest⟩
        ⟨hr, fun g hg => h'.frame g (by simp [hg]), h'.rest⟩
      exact ⟨by rw [h1], h2⟩

/-- What is in front of a stream is in front of its decomposition. -/
theorem Decomposes.append {l : List α} {fs gs : List (List α)} {t : List α} (h : Decomposes F l fs t)
    (hg : ∀ g ∈ gs, F.IsFrame g) : Decomposes F (gs.flatten ++ l) (gs ++ fs) t := by
  refine ⟨by rw [h.eq, List.flatten_append, List.append_assoc], fun f hf => ?_, h.rest⟩
  rcases List.mem_append.1 hf with hf | hf
  · exact hg f hf
  · exact h.frame f hf

/-- **Frames at the front of a stream are the first of its decomposition.** -/
theorem Decomposes.isPrefix {l : List α} {fs gs : List (List α)} {t : List α}
    (hg : ∀ g ∈ gs, F.IsFrame g) (h : Decomposes F (gs.flatten ++ l) fs t) : gs <+: fs := by
  obtain ⟨fs', t', h'⟩ := decomposes_exists (F := F) l
  exact ⟨fs', ((h'.append hg).unique h).1⟩

/-- **One more element**: an incomplete tail stays incomplete, or it becomes exactly
one complete frame. -/
theorem snoc_cases {t : List α} (h : ¬ F.HasFrame t) (b : α) :
    ¬ F.HasFrame (t ++ [b]) ∨ F.IsFrame (t ++ [b]) := by
  by_cases hc : F.HasFrame (t ++ [b])
  · right
    have h1 := hc.1
    have h2 := hc.2
    unfold Format.IsFrame
    simp only [List.length_append, List.length_singleton] at h1 h2 ⊢
    by_cases hh : F.hdr ≤ t.length
    · have : F.size (t ++ [b]) = F.size t := size_append hh _
      have : ¬ F.size t ≤ t.length := fun hle => h ⟨hh, hle⟩
      omega
    · have : F.hdr ≤ F.size (t ++ [b]) := Nat.le_add_right _ _
      omega
  · exact Or.inl hc

/-- The stream grows inside its tail. -/
theorem Decomposes.extend {l : List α} {fs : List (List α)} {t m : List α} (h : Decomposes F l fs t)
    (hr : ¬ F.HasFrame (t ++ m)) : Decomposes F (l ++ m) fs (t ++ m) :=
  ⟨by rw [h.eq, List.append_assoc], h.frame, hr⟩

/-- The stream grows until its tail is a complete frame. -/
theorem Decomposes.complete {l : List α} {fs : List (List α)} {t m : List α} (h : Decomposes F l fs t)
    (hf : F.IsFrame (t ++ m)) : Decomposes F (l ++ m) (fs ++ [t ++ m]) [] := by
  refine ⟨by rw [h.eq]; simp, ?_, (Decomposes.nil).rest⟩
  intro f hf'
  rcases List.mem_append.1 hf' with hf' | hf'
  · exact h.frame f hf'
  · rw [List.mem_singleton.1 hf']; exact hf

end Framing
