import ServerRoom.Lib.Framing

/-!
# Writers that give up

A writer that is to write one frame after the other may give up inside one. The record of
an attempt is the frame and the part of it that was written. A stream of attempts is in
step (`InStep`) when each wrote its frame or nothing, but for at most one, after which
nothing was written.

* `inStep_iff`: that is so exactly when nothing is written after a cut attempt.
* `InStep.decomposes`: a reader of such a stream finds whole frames, in their order.
-/

namespace Framing

/-- A frame that was to be written, and what was written of it. -/
structure Attempt (α : Type*) where
  whole : List α
  written : List α
  isPrefix : written <+: whole

variable {α : Type*} {F : Format α}

/-- What a list of attempts wrote. -/
def written (l : List (Attempt α)) : List α := l.flatMap Attempt.written

/-- A part of the frame was written, and not all of it. -/
def Attempt.Cut (x : Attempt α) : Prop := x.written ≠ [] ∧ x.written ≠ x.whole

theorem Attempt.not_cut {x : Attempt α} : ¬ x.Cut ↔ x.written = [] ∨ x.written = x.whole := by
  unfold Attempt.Cut
  rw [not_and_or, not_ne_iff, not_ne_iff]

/-- An attempt that did not write its whole frame lacks something of it. -/
theorem Attempt.rest_iff {x : Attempt α} :
    x.written ≠ x.whole ↔ ∃ rest, rest ≠ [] ∧ x.written ++ rest = x.whole := by
  constructor
  · intro h
    obtain ⟨rest, hrest⟩ := x.isPrefix
    refine ⟨rest, ?_, hrest⟩
    rintro rfl
    exact h (by rw [← hrest, List.append_nil])
  · rintro ⟨rest, hne, happ⟩ he
    rw [← he] at happ
    exact hne (List.append_right_eq_self.1 happ)

/-- **A stream in step**: each of the first attempts wrote its whole frame or nothing; then
at most one did not, and nothing was written after it. -/
def InStep (l : List (Attempt α)) : Prop :=
  ∃ whole cut silent, l = whole ++ cut ++ silent ∧ (∀ x ∈ whole, x.written = [] ∨ x.written = x.whole) ∧
    cut.length ≤ 1 ∧ (∀ x ∈ cut, x.written ≠ x.whole) ∧ ∀ x ∈ silent, x.written = []

/-- **A stream is in step exactly if nothing is written after a cut attempt.** -/
theorem inStep_iff {l : List (Attempt α)} : InStep l ↔ l.Pairwise fun x y => x.Cut → y.written = [] := by
  constructor
  · rintro ⟨whole, cut, silent, rfl, hwhole, hlen, -, hsilent⟩
    have hno : ∀ x ∈ whole, ∀ y : Attempt α, x.Cut → y.written = [] := fun x hx y hc =>
      absurd hc (Attempt.not_cut.2 (hwhole x hx))
    have hcut : cut.Pairwise fun x y => x.Cut → y.written = [] := by
      match cut, hlen with
      | [], _ => exact List.Pairwise.nil
      | [x], _ => exact List.pairwise_singleton _ x
    refine List.pairwise_append.2 ⟨List.pairwise_append.2 ⟨?_, hcut, fun x hx y _ => hno x hx y⟩, ?_,
      fun x _ y hy _ => hsilent y hy⟩
    · exact List.pairwise_of_forall_mem_list fun x hx y _ => hno x hx y
    · exact List.pairwise_of_forall_mem_list fun x _ y hy _ => hsilent y hy
  · intro h
    induction l with
    | nil => exact ⟨[], [], [], rfl, nofun, Nat.zero_le 1, nofun, nofun⟩
    | cons x l ih =>
      obtain ⟨hx, h⟩ := List.pairwise_cons.1 h
      by_cases hc : x.Cut
      · refine ⟨[], [x], l, rfl, nofun, Nat.le_refl 1, fun y hy => ?_, fun y hy => hx y hy hc⟩
        rw [List.mem_singleton.1 hy]
        exact hc.2
      · obtain ⟨whole, cut, silent, rfl, hwhole, hlen, hcut, hsilent⟩ := ih h
        refine ⟨x :: whole, cut, silent, rfl, fun y hy => ?_, hlen, hcut, hsilent⟩
        rcases List.mem_cons.1 hy with rfl | hy
        · exact Attempt.not_cut.1 hc
        · exact hwhole y hy

theorem InStep.nil : InStep ([] : List (Attempt α)) :=
  ⟨[], [], [], rfl, nofun, Nat.zero_le 1, nofun, nofun⟩

/-- **One more attempt**: a stream in step stays so exactly if nothing is written after a cut. -/
theorem inStep_snoc {l : List (Attempt α)} {x : Attempt α} :
    InStep (l ++ [x]) ↔ InStep l ∧ ((∃ y ∈ l, y.Cut) → x.written = []) := by
  rw [inStep_iff, inStep_iff, List.pairwise_append]
  constructor
  · rintro ⟨h, -, hx⟩
    exact ⟨h, fun ⟨y, hy, hcut⟩ => hx y hy x (List.mem_singleton_self x) hcut⟩
  · rintro ⟨h, hx⟩
    refine ⟨h, List.pairwise_singleton _ x, fun y hy z hz hcut => ?_⟩
    rw [List.mem_singleton.1 hz]
    exact hx ⟨y, hy, hcut⟩

/-- Attempts that were not cut wrote frames. -/
theorem frames_of_whole {l : List (Attempt α)} (h : ∀ x ∈ l, x.written = [] ∨ x.written = x.whole) :
    ∃ frames : List (List α), written l = frames.flatten ∧ frames.Sublist (l.map Attempt.whole) := by
  induction l with
  | nil => exact ⟨[], rfl, List.Sublist.slnil⟩
  | cons x l ih =>
    obtain ⟨frames, heq, hsub⟩ := ih fun y hy => h y (List.mem_cons_of_mem _ hy)
    have hcons : written (x :: l) = x.written ++ written l := List.flatMap_cons
    rcases h x List.mem_cons_self with hx | hx
    · exact ⟨frames, by rw [hcons, hx, heq]; rfl, hsub.cons _⟩
    · exact ⟨x.whole :: frames, by rw [hcons, hx, heq]; rfl, hsub.cons_cons _⟩

/-- **A reader of a stream in step finds whole frames, in their order**, and after them at
most one that is not complete. -/
theorem InStep.decomposes {l : List (Attempt α)} (h : InStep l) (hframe : ∀ x ∈ l, F.IsFrame x.whole) :
    ∃ frames tail, Decomposes F (written l) frames tail ∧ frames.Sublist (l.map Attempt.whole) := by
  obtain ⟨whole, cut, silent, rfl, hwhole, hlen, hcut, hsilent⟩ := h
  obtain ⟨frames, heq, hsub⟩ := frames_of_whole hwhole
  have hsil : written silent = [] := List.flatMap_eq_nil_iff.2 hsilent
  have hsplit : written (whole ++ cut ++ silent) = written whole ++ written cut ++ written silent := by
    unfold written
    rw [List.flatMap_append, List.flatMap_append]
  have hall : frames.Sublist ((whole ++ cut ++ silent).map Attempt.whole) := by
    rw [List.append_assoc, List.map_append]
    exact hsub.trans (List.sublist_append_left _ _)
  refine ⟨frames, written cut, ⟨?_, fun f hf => ?_, ?_⟩, hall⟩
  · rw [hsplit, hsil, List.append_nil, heq]
  · obtain ⟨x, hx, rfl⟩ := List.mem_map.1 (hall.subset hf)
    exact hframe x hx
  · cases cut with
    | nil => exact Decomposes.nil.rest
    | cons x others =>
      obtain rfl : others = [] := List.eq_nil_of_length_eq_zero (by simpa using hlen)
      obtain ⟨rest, hrest, happ⟩ := Attempt.rest_iff.1 (hcut x List.mem_cons_self)
      have hw : written [x] = x.written := List.flatMap_singleton _ _
      rw [hw]
      exact Format.IsFrame.not_hasFrame (happ ▸ hframe x (by simp)) hrest

end Framing
