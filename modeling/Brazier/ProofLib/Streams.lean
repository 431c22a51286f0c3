import Mathlib.Data.List.Infix

/-!
# Streams that are read in pieces

What arrives on a stream is read into a buffer, piece by piece, until the buffer has a delimiter.
`readUntil_append` says that this happens with the pieces of any text that has it, whatever
arrives behind them.
-/

namespace ProofLib

universe u

variable {σ : Type u}

/-- A stream: what was read of it and is still in the buffer, and the reads that are to come. -/
structure Stream (σ : Type u) where
  buffer : List σ
  reads : List (List σ)

namespace Stream

/-- What can still be taken from a stream. -/
def text (s : Stream σ) : List σ := s.buffer ++ s.reads.flatten

/-- The stream with more reads to come. -/
def followed (s : Stream σ) (later : List (List σ)) : Stream σ := ⟨s.buffer, s.reads ++ later⟩

/-- Every read has something. -/
def Delivers (s : Stream σ) : Prop := [] ∉ s.reads

variable [DecidableEq σ]

/-- Reads until the buffer has the delimiter. Nothing is found when the reads end before. -/
def fill (delim : List σ) (buffer : List σ) : List (List σ) → Option (Stream σ)
  | [] => if delim <:+: buffer then some ⟨buffer, []⟩ else none
  | read :: reads =>
      if delim <:+: buffer then some ⟨buffer, read :: reads⟩ else fill delim (buffer ++ read) reads

/-- Reads until the buffer has the delimiter. -/
def readUntil (delim : List σ) (s : Stream σ) : Option (Stream σ) := fill delim s.buffer s.reads

/-- What is read is in the buffer then, with the delimiter. -/
theorem readUntil_eq_some {delim : List σ} {s s' : Stream σ} (h : readUntil delim s = some s') :
    s'.text = s.text ∧ delim <:+: s'.buffer ∧ s'.reads <:+ s.reads := by
  obtain ⟨buffer, reads⟩ := s
  unfold readUntil at h
  dsimp only at h
  induction reads generalizing buffer with
  | nil =>
      rw [fill, Option.ite_none_right_eq_some] at h
      cases h.2
      exact ⟨rfl, h.1, List.suffix_rfl⟩
  | cons read reads ih =>
      rw [fill] at h
      split at h
      · next hdelim =>
          cases h
          exact ⟨rfl, hdelim, List.suffix_rfl⟩
      · obtain ⟨htext, hdelim, hsuffix⟩ := ih (buffer ++ read) h
        refine ⟨htext.trans ?_, hdelim, hsuffix.trans (List.suffix_cons read reads)⟩
        simp [text]

/-- A stream whose text has the delimiter is read up to it, with the same left behind. -/
theorem readUntil_append {delim : List σ} {s : Stream σ} (h : delim <:+: s.text)
    (later : List (List σ)) :
    ∃ s' : Stream σ, readUntil delim (s.followed later) = some (s'.followed later) ∧
      s'.text = s.text ∧ delim <:+: s'.buffer ∧ s'.reads <:+ s.reads := by
  obtain ⟨buffer, reads⟩ := s
  unfold readUntil followed
  dsimp only
  induction reads generalizing buffer with
  | nil =>
      have hdelim : delim <:+: buffer := by simpa [text] using h
      refine ⟨⟨buffer, []⟩, ?_, rfl, hdelim, List.suffix_rfl⟩
      cases later with
      | nil => exact if_pos hdelim
      | cons read later => exact if_pos hdelim
  | cons read reads ih =>
      by_cases hdelim : delim <:+: buffer
      · exact ⟨⟨buffer, read :: reads⟩, if_pos hdelim, rfl, hdelim, List.suffix_rfl⟩
      · have htext : text ⟨buffer ++ read, reads⟩ = text ⟨buffer, read :: reads⟩ := by
          simp [text]
        obtain ⟨s', heq, hs', hfound, hsuffix⟩ := ih (buffer ++ read) (by rwa [htext])
        refine ⟨s', (if_neg hdelim).trans heq, hs'.trans htext, hfound, ?_⟩
        exact hsuffix.trans (List.suffix_cons read reads)

omit [DecidableEq σ] in
/-- When everything was taken no read is left. -/
theorem eq_of_text_nil {s : Stream σ} (h : s.text = []) (hreads : s.Delivers) : s = ⟨[], []⟩ := by
  obtain ⟨buffer, reads⟩ := s
  obtain ⟨hbuffer, hflatten⟩ := List.append_eq_nil_iff.mp h
  dsimp only at hbuffer hflatten
  cases reads with
  | nil => rw [hbuffer]
  | cons read reads =>
      rw [List.flatten_eq_nil_iff] at hflatten
      exact absurd (hflatten read List.mem_cons_self ▸ List.mem_cons_self) hreads

end Stream

end ProofLib
