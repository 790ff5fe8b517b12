import Mathlib.Data.List.Basic

/-!
# Streams of separator-framed records

A record is a key and a body. Its frame is the key, a separator, the body and a terminator, and a
list of records is written as the concatenation of the frames. Nothing is escaped and no length is
written, so the question is when a stream determines the records it was written from.

## What decides it

Keys are non-empty and otherwise arbitrary; in particular a key may contain the separator. Two
moves produce a second reading of the same stream:

* `stream_cons_cons`: two adjacent frames are one frame whose body swallows the second key;
* a separator inside the body may be taken for the end of the key, and so may one inside the key.

`key_eq_of_append_eq` says that there is no third move: a letter that keys may not hold protects the
separators behind it, and a key ends at the first unprotected separator past its first letter.
-/

namespace Framing

open List

variable {α : Type*} (sep fin : α)

/-- The frame of one record. -/
def frame (r : List α × List α) : List α :=
  r.1 ++ sep :: (r.2 ++ [fin])

/-- The stream of a list of records. -/
def stream (rs : List (List α × List α)) : List α :=
  rs.flatMap (frame sep fin)

@[simp] theorem stream_nil : stream sep fin ([] : List (List α × List α)) = [] := rfl

@[simp] theorem stream_cons (r : List α × List α) (rs : List (List α × List α)) :
    stream sep fin (r :: rs) = frame sep fin r ++ stream sep fin rs := rfl

theorem frame_ne_nil (r : List α × List α) : frame sep fin r ≠ [] := by
  simp [frame]

theorem stream_eq_nil_iff {rs : List (List α × List α)} : stream sep fin rs = [] ↔ rs = [] := by
  constructor
  · intro h
    cases rs with
    | nil => rfl
    | cons r rs =>
      rw [stream_cons, append_eq_nil_iff] at h
      exact absurd h.1 (frame_ne_nil sep fin r)
  · rintro rfl
    rfl

/-! ### The two ways to read a stream again -/

/-- **Swallowing a key.** Two frames are one frame with a longer body. -/
theorem stream_cons_cons (r s : List α × List α) (rs : List (List α × List α)) :
    stream sep fin (r :: s :: rs) =
      stream sep fin ((r.1, r.2 ++ fin :: (s.1 ++ sep :: s.2)) :: rs) := by
  simp [frame]

/-- Every stream with at least one record is the stream of one record, under the same first key. -/
theorem exists_stream_singleton (r : List α × List α) (rs : List (List α × List α)) :
    ∃ b, stream sep fin [(r.1, b)] = stream sep fin (r :: rs) := by
  induction rs generalizing r with
  | nil => exact ⟨r.2, rfl⟩
  | cons s rs ih =>
    obtain ⟨b, hb⟩ := ih (r.1, r.2 ++ fin :: (s.1 ++ sep :: s.2))
    exact ⟨b, hb.trans (stream_cons_cons sep fin r s rs).symm⟩

/-! ### No third way -/

/-- **Where the key ends.** A key has no separator past its first letter, and before each separator
of what follows there is a letter that no key may hold. Then the text up to the end of the key is
the only admissible key. -/
theorem key_eq_of_append_eq {esc : α} {k k' b b' : List α} (hk : sep ∉ k.tail) (hk₀ : k' ≠ [])
    (hk' : esc ∉ k') (hb : ∀ d e, b = d ++ sep :: e → esc ∈ d)
    (h : k' ++ sep :: b' = k ++ sep :: b) : k' = k ∧ b' = b := by
  rcases append_eq_append_iff.1 h with ⟨d, hd, hd'⟩ | ⟨d, hd, hd'⟩
  · -- `k'` is a prefix of `k`: what is left of `k` starts with a separator
    cases d with
    | nil =>
      simp only [append_nil, nil_append, List.cons.injEq, true_and] at hd hd'
      exact ⟨hd.symm, hd'⟩
    | cons x d =>
      have hx : x = sep := by
        exact (List.cons.inj hd').1.symm
      obtain ⟨y, t, rfl⟩ := exists_cons_of_ne_nil hk₀
      refine absurd ?_ hk
      rw [hd, cons_append, hx]
      simp
  · -- `k` is a prefix of `k'`: what is left of `k'` ends before a separator of `b`
    cases d with
    | nil =>
      simp only [append_nil, nil_append, List.cons.injEq, true_and] at hd hd'
      exact ⟨hd, hd'.symm⟩
    | cons x d =>
      refine absurd ?_ hk'
      have hesc := hb d b' (List.cons.inj hd').2
      rw [hd]
      exact mem_append_right _ (mem_cons_of_mem _ hesc)

end Framing
