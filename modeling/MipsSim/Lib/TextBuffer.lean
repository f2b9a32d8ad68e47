import Mathlib.Data.List.TakeWhile

/-!
# Text in buffers

Formatted output to blocks of fixed size, as `snprintf` does it: what does not fit is cut off, and
the text ends with a terminator. Several such calls, each of which goes on where the last one was to
end, leave the whole text, cut once.
-/

namespace TextBuffer

variable {α : Type*} {nul : α} {buf buf' s t cells : List α} {o size : ℕ}

/-- The cells that are written for a text when there is room for `size` of them. -/
def printed (nul : α) (size : ℕ) (text : List α) : List α :=
  if size = 0 then [] else text.take (size - 1) ++ [nul]

/-- A block after some cells were written from an offset on. There is none if they go beyond it. -/
def put (buf : List α) (o : ℕ) (cells : List α) : Option (List α) :=
  if o + cells.length ≤ buf.length then
    some (buf.take o ++ cells ++ buf.drop (o + cells.length))
  else none

/-- The text in a block: what comes before the first terminator. -/
def content [DecidableEq α] (nul : α) (buf : List α) : List α := buf.takeWhile (· ≠ nul)

/-- The block holds the text as far as it fits. -/
def Holds (nul : α) (buf text : List α) : Prop :=
  ∃ rest, buf = text.take (buf.length - 1) ++ nul :: rest

lemma length_printed_le (text : List α) : (printed nul size text).length ≤ size := by
  unfold printed
  split_ifs with h
  · exact Nat.zero_le _
  · rw [List.length_append, List.length_take, List.length_singleton]
    omega

lemma length_put (h : put buf o cells = some buf') : buf'.length = buf.length := by
  unfold put at h
  split_ifs at h with hle
  obtain rfl := Option.some.inj h
  simp only [List.length_append, List.length_take, List.length_drop]
  omega

/-- The rule for a call: behind a text that is there, the next one is added. -/
lemma exists_put (hpre : buf.take s.length = s) (hlt : s.length < buf.length) (t : List α) :
    ∃ buf', put buf s.length (printed nul (buf.length - s.length) t) = some buf' ∧
      Holds nul buf' (s ++ t) := by
  have hle := @length_printed_le _ nul (buf.length - s.length) t
  have hput : put buf s.length (printed nul (buf.length - s.length) t) = some _ :=
    if_pos (by omega)
  refine ⟨_, hput, ?_⟩
  have hcut : (s ++ t).take (buf.length - 1) = s ++ t.take (buf.length - s.length - 1) := by
    rw [List.take_append, List.take_of_length_le (by omega), Nat.sub_right_comm]
  rw [Holds, length_put hput, hpre, hcut]
  refine ⟨buf.drop (s.length + (printed nul (buf.length - s.length) t).length), ?_⟩
  rw [printed, if_neg (by omega)]
  simp only [List.append_assoc, List.singleton_append]

/-- The rule for one more call. It writes nothing when the text before has filled the block. -/
lemma Holds.exists_put (h : Holds nul buf s) (hle : s.length ≤ buf.length) (t : List α) :
    ∃ buf', put buf s.length (printed nul (buf.length - s.length) t) = some buf' ∧
      Holds nul buf' (s ++ t) := by
  obtain ⟨rest, hrest⟩ := h
  rcases Nat.lt_or_eq_of_le hle with hlt | heq
  · refine TextBuffer.exists_put ?_ hlt t
    rw [List.take_of_length_le (by omega)] at hrest
    rw [hrest, List.take_left]
  · refine ⟨buf, ?_, rest, ?_⟩
    · rw [heq, Nat.sub_self, printed, if_pos rfl, put, if_pos (by simp)]
      simp
    · rw [List.take_append_of_le_length (by omega)]
      exact hrest

/-- What a block holds can be read from it. -/
lemma Holds.content_eq [DecidableEq α] (h : Holds nul buf t) (ht : nul ∉ t) :
    content nul buf = t.take (buf.length - 1) := by
  obtain ⟨rest, hrest⟩ := h
  have htake : ∀ a ∈ t.take (buf.length - 1), decide (a ≠ nul) = true := by
    rintro a ha
    rw [decide_eq_true_eq]
    rintro rfl
    exact ht (List.mem_of_mem_take ha)
  calc content nul buf
      = content nul (t.take (buf.length - 1) ++ nul :: rest) := congrArg _ hrest
    _ = t.take (buf.length - 1) := by
      rw [content, List.takeWhile_append_of_pos htake, List.takeWhile_cons_of_neg (by simp),
        List.append_nil]

end TextBuffer
