import Mathlib.Data.List.Infix

/-! # Frames of an incremental decoder

A decoder takes at most one frame off the front of what has been read so far,
or says that it needs more. The frames it finds in a buffer are a function of
the whole buffer, and a reader that is given the buffer in pieces finds the
same ones, if the decoder respects the frames' bounds.
-/

namespace Transition

set_option autoImplicit false

variable {σ β ε φ : Type} {decode : σ → List β → σ × List β × Except ε (Option φ)}

/-- The decoder in the state `s` takes the frame `f` off every buffer that
begins with `p`, and waits while only a part of `p` is there. -/
structure IsFrame (decode : σ → List β → σ × List β × Except ε (Option φ)) (s : σ) (p : List β)
    (s' : σ) (f : φ) : Prop where
  nonempty : p ≠ []
  whole : ∀ more, decode s (p ++ more) = (s', more, .ok (some f))
  part : ∀ q, q <+: p → q ≠ p → decode s q = (s, q, .ok none)

def takeFrames (decode : σ → List β → σ × List β × Except ε (Option φ)) :
    Nat → σ → List β → List φ
  | 0, _, _ => []
  | fuel + 1, s, buf =>
    match decode s buf with
    | (s', rest, .ok (some f)) => f :: takeFrames decode fuel s' rest
    | (_, _, .ok none) => []
    | (_, _, .error _) => []

def framesOf (decode : σ → List β → σ × List β × Except ε (Option φ)) (s : σ) (buf : List β) :
    List φ :=
  takeFrames decode buf.length s buf

/-- The buffer is the frames `fs`, one after the other, for a decoder that
starts in the state `s`. -/
inductive FrameList (decode : σ → List β → σ × List β × Except ε (Option φ)) :
    σ → List β → List φ → Prop
  | nil (s : σ) : FrameList decode s [] []
  | cons {s s' : σ} {p rest : List β} {f : φ} {fs : List φ} (head : IsFrame decode s p s' f)
      (tail : FrameList decode s' rest fs) : FrameList decode s (p ++ rest) (f :: fs)

theorem FrameList.eq_nil {s : σ} {fs : List φ} (h : FrameList decode s [] fs) : fs = [] := by
  generalize hbuf : ([] : List β) = buf at h
  cases h with
  | nil => rfl
  | cons head tail => exact absurd (List.append_eq_nil_iff.mp hbuf.symm).1 head.nonempty

/-- What the decoder does with the part `buf` of such a buffer: it takes the
first frame off, or it waits for the rest of it. -/
theorem FrameList.decode_part {s : σ} {buf more : List β} {fs : List φ}
    (h : FrameList decode s (buf ++ more) fs) (hbuf : buf ≠ []) :
    (∃ f fs' s' rest, fs = f :: fs' ∧ decode s buf = (s', rest, .ok (some f)) ∧
      FrameList decode s' (rest ++ more) fs') ∨
    decode s buf = (s, buf, .ok none) ∧ more ≠ [] := by
  generalize hall : buf ++ more = all at h
  cases h with
  | nil => exact absurd (List.append_eq_nil_iff.mp hall).1 hbuf
  | @cons _ s' p rest f fs' head tail =>
    have hprefix : buf <+: p ++ rest := ⟨more, hall⟩
    rcases List.prefix_or_prefix_of_prefix hprefix (List.prefix_append p rest)
      with hpart | ⟨left, rfl⟩
    · by_cases heq : buf = p
      · subst heq
        obtain rfl := List.append_cancel_left hall
        have hwhole := head.whole []
        rw [List.append_nil] at hwhole
        exact .inl ⟨f, fs', s', [], rfl, hwhole, tail⟩
      · refine .inr ⟨head.part buf hpart heq, ?_⟩
        rintro rfl
        rw [List.append_nil] at hall
        have hlong : p <+: buf := ⟨rest, hall.symm⟩
        exact heq (hpart.eq_of_length_le hlong.length_le)
    · rw [List.append_assoc] at hall
      obtain rfl := List.append_cancel_left hall
      exact .inl ⟨f, fs', s', left, rfl, head.whole left, tail⟩

end Transition
