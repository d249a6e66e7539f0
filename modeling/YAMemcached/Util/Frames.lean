import Mathlib

/-!
This module contains streams that are a concatenation of frames, and what is there of the frames when a
part of the stream has arrived: some of them completely, and the begin of the next one.
-/

namespace Frames

variable {text : φ → List α}

theorem prefix_append_cases {xs ys seen : List α} (h : seen <+: xs ++ ys)
    : seen <+: xs ∨ ∃ more, seen = xs ++ more ∧ more <+: ys := by
  rcases List.prefix_or_prefix_of_prefix h (List.prefix_append xs ys) with hle | hle
  . exact .inl hle
  . obtain ⟨more, rfl⟩ := hle
    right
    refine ⟨more, rfl, ?_⟩
    rwa [List.prefix_append_right_inj] at h

/--
Of `frames`, `done` has arrived completely and `pre` is there of the first of `rest`.
-/
structure Cut (text : φ → List α) (frames : List φ) (seen : List α) (done rest : List φ) (pre : List α)
    : Prop where
  frames : frames = done ++ rest
  seen : seen = done.flatMap text ++ pre
  none : rest = [] → pre = []
  proper : ∀ r rest', rest = r :: rest' → pre <+: text r ∧ pre.length < (text r).length

theorem exists_cut (frames : List φ) (hpos : ∀ r ∈ frames, 0 < (text r).length) {seen : List α}
    (h : seen <+: frames.flatMap text) : ∃ done rest pre, Cut text frames seen done rest pre := by
  induction frames generalizing seen with
  | nil =>
    rw [List.flatMap_nil, List.prefix_nil] at h
    exact ⟨[], [], [], rfl, h, fun _ => rfl, nofun⟩
  | cons r frames ih =>
    have hr := hpos r (.head _)
    rw [List.flatMap_cons] at h
    have hfirst (hle : seen <+: text r) (hlt : seen.length < (text r).length)
        : ∃ done rest pre, Cut text (r :: frames) seen done rest pre := by
      refine ⟨[], r :: frames, seen, rfl, rfl, nofun, ?_⟩
      intro _ _ heq
      cases heq
      exact ⟨hle, hlt⟩
    have hothers (more : List α) (heq : seen = text r ++ more) (hle : more <+: frames.flatMap text)
        : ∃ done rest pre, Cut text (r :: frames) seen done rest pre := by
      obtain ⟨done, rest, pre, hcut⟩ := ih (fun r hr => hpos r (.tail _ hr)) hle
      refine ⟨r :: done, rest, pre, ?_, ?_, hcut.none, hcut.proper⟩
      . rw [hcut.frames, List.cons_append]
      . rw [heq, hcut.seen, List.flatMap_cons, List.append_assoc]
    rcases prefix_append_cases h with hle | ⟨more, heq, hle⟩
    . rcases Nat.lt_or_ge seen.length (text r).length with hlt | hge
      . exact hfirst hle hlt
      . apply hothers [] _ (List.nil_prefix)
        rw [List.append_nil]
        exact hle.eq_of_length_le hge
    . exact hothers more heq hle

theorem Cut.extend {frames : List φ} {seen chunk : List α} (hpos : ∀ r ∈ frames, 0 < (text r).length)
    (h : Cut text frames seen done rest pre) (hchunk : seen ++ chunk <+: frames.flatMap text)
    : ∃ done' rest' pre', Cut text rest (pre ++ chunk) done' rest' pre'
        ∧ Cut text frames (seen ++ chunk) (done ++ done') rest' pre' := by
  have hframes := h.frames
  have hseen := h.seen
  rw [hframes] at hpos hchunk
  rw [hseen, List.flatMap_append, List.append_assoc, List.prefix_append_right_inj] at hchunk
  obtain ⟨done', rest', pre', hcut⟩ := exists_cut rest
    (fun r hr => hpos r (List.mem_append_right done hr)) hchunk
  refine ⟨done', rest', pre', hcut, ?_, ?_, hcut.none, hcut.proper⟩
  . rw [hframes, hcut.frames, List.append_assoc]
  . rw [hseen, List.append_assoc, hcut.seen, List.flatMap_append, List.append_assoc]

theorem Cut.complete {frames : List φ} (h : Cut text frames (frames.flatMap text) done rest pre)
    : done = frames ∧ pre = [] := by
  have hseen := h.seen
  rw [h.frames, List.flatMap_append, List.append_cancel_left_eq] at hseen
  cases hrest : rest with
  | nil =>
    rw [h.frames, hrest, List.append_nil]
    exact ⟨rfl, h.none hrest⟩
  | cons r rest' =>
    obtain ⟨_, hlt⟩ := h.proper r rest' hrest
    rw [hrest, List.flatMap_cons] at hseen
    rw [← hseen, List.length_append] at hlt
    omega

end Frames
