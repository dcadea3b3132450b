import Mathlib.Data.List.Basic
import Mathlib.Data.List.Infix
import ScriptLink.Engine.Reader

/-! # Lines out of chunks

    The reader keeps the bytes behind the last newline and puts them in front of the next chunk. Main statements: where
    the chunks are cut does not matter, and lines without newlines of their own come out as they went in. -/

namespace ScriptLink

/-- Lines, each with its newline. -/
def unlines (lines : List (List UInt8)) : List UInt8 :=
  lines.flatMap fun line => line ++ [0x0A]

theorem unlines_cons (line : List UInt8) (lines : List (List UInt8)) :
    unlines (line :: lines) = line ++ 0x0A :: unlines lines := by
  rw [unlines, List.flatMap_cons, List.append_assoc]
  rfl

/-! ### The cases of a chunk -/

theorem segmentsFrom_done (done : List (List UInt8)) (current bytes : List UInt8) :
    segmentsFrom done current bytes = done.reverse ++ segmentsFrom [] current bytes := by
  induction bytes generalizing done current with
  | nil => simp [segmentsFrom]
  | cons b bytes ih =>
    by_cases hb : b = 0x0A
    · simp only [segmentsFrom, if_pos hb]
      rw [ih (current.reverse :: done), ih [current.reverse], List.reverse_cons, List.append_assoc]
      rfl
    · simp only [segmentsFrom, if_neg hb]
      exact ih done (b :: current)

theorem segments_eq (bytes : List UInt8) : ∃ first rest, segments bytes = first :: rest ∧
    ∀ current, segmentsFrom [] current bytes = (current.reverse ++ first) :: rest := by
  induction bytes with
  | nil => exact ⟨[], [], rfl, fun current => by simp [segmentsFrom]⟩
  | cons b bytes ih =>
    by_cases hb : b = 0x0A
    · refine ⟨[], segments bytes, ?_, fun current => ?_⟩
      all_goals
        simp only [segments, segmentsFrom, if_pos hb]
        rw [segmentsFrom_done]
        simp
    · obtain ⟨first, rest, -, hall⟩ := ih
      refine ⟨b :: first, rest, ?_, fun current => ?_⟩
      all_goals
        simp only [segments, segmentsFrom, if_neg hb, hall]
        simp

variable {unfinished : List UInt8}

theorem linesOfChunk_nil (unfinished : List UInt8) : linesOfChunk unfinished [] = ([], unfinished) := by
  simp [linesOfChunk, segments, segmentsFrom]

theorem linesOfChunk_newline (unfinished chunk : List UInt8) : linesOfChunk unfinished (0x0A :: chunk) =
    (unfinished :: (linesOfChunk [] chunk).1, (linesOfChunk [] chunk).2) := by
  obtain ⟨first, rest, hsegments, -⟩ := segments_eq chunk
  have hnewline : segments (0x0A :: chunk) = [] :: first :: rest := by
    rw [← hsegments, segments, segmentsFrom, if_pos rfl, segmentsFrom_done]
    rfl
  simp only [linesOfChunk, hnewline, hsegments, List.append_nil, List.nil_append]
  rcases List.eq_nil_or_concat rest with rfl | ⟨rest, last, rfl⟩
  · rfl
  · simp [List.getLast?_cons, List.dropLast_cons_of_ne_nil]

theorem linesOfChunk_cons {b : UInt8} (hb : b ≠ 0x0A) (unfinished chunk : List UInt8) :
    linesOfChunk unfinished (b :: chunk) = linesOfChunk (unfinished ++ [b]) chunk := by
  obtain ⟨first, rest, hsegments, hall⟩ := segments_eq chunk
  have hcons : segments (b :: chunk) = (b :: first) :: rest := by
    rw [segments, segmentsFrom, if_neg hb, hall]
    rfl
  simp only [linesOfChunk, hcons, hsegments, List.append_assoc, List.singleton_append]

/-! ### Cutting and joining -/

/-- Two chunks give what they give as one. -/
theorem linesOfChunk_append (unfinished chunk later : List UInt8) : linesOfChunk unfinished (chunk ++ later) =
    ((linesOfChunk unfinished chunk).1 ++ (linesOfChunk (linesOfChunk unfinished chunk).2 later).1,
      (linesOfChunk (linesOfChunk unfinished chunk).2 later).2) := by
  induction chunk generalizing unfinished with
  | nil => simp [linesOfChunk_nil]
  | cons b chunk ih =>
    by_cases hb : b = 0x0A
    · subst hb
      rw [List.cons_append, linesOfChunk_newline, linesOfChunk_newline, ih]
      rfl
    · rw [List.cons_append, linesOfChunk_cons hb, linesOfChunk_cons hb, ih]

theorem linesOfChunk_line {line : List UInt8} (h : (0x0A : UInt8) ∉ line) (unfinished chunk : List UInt8) :
    linesOfChunk unfinished (line ++ chunk) = linesOfChunk (unfinished ++ line) chunk := by
  induction line generalizing unfinished with
  | nil => simp
  | cons b line ih =>
    rw [List.mem_cons, not_or] at h
    rw [List.cons_append, linesOfChunk_cons (Ne.symm h.1), ih h.2, List.append_assoc, List.singleton_append]

theorem linesOfChunk_unlines {lines : List (List UInt8)} (h : ∀ line ∈ lines, (0x0A : UInt8) ∉ line) :
    linesOfChunk [] (unlines lines) = (lines, []) := by
  induction lines with
  | nil => exact linesOfChunk_nil []
  | cons line lines ih =>
    rw [unlines_cons, linesOfChunk_line (h line List.mem_cons_self), linesOfChunk_newline,
      ih fun other hm => h other (List.mem_cons_of_mem _ hm), List.nil_append]

/-- The lines that a chunk ends and what is unfinished behind it are what there was, cut at the newlines. -/
theorem linesOfChunk_spec (h : (0x0A : UInt8) ∉ unfinished) (chunk : List UInt8) :
    unfinished ++ chunk = unlines (linesOfChunk unfinished chunk).1 ++ (linesOfChunk unfinished chunk).2 ∧
      (∀ line ∈ (linesOfChunk unfinished chunk).1, (0x0A : UInt8) ∉ line) ∧
      (0x0A : UInt8) ∉ (linesOfChunk unfinished chunk).2 := by
  induction chunk generalizing unfinished with
  | nil =>
    rw [linesOfChunk_nil]
    exact ⟨List.append_nil _, List.forall_mem_nil _, h⟩
  | cons b chunk ih =>
    by_cases hb : b = 0x0A
    · subst hb
      obtain ⟨hjoin, hlines, htail⟩ := ih List.not_mem_nil
      rw [linesOfChunk_newline]
      refine ⟨?_, List.forall_mem_cons.mpr ⟨h, hlines⟩, htail⟩
      rw [List.nil_append] at hjoin
      rw [unlines_cons, List.append_assoc, List.cons_append, ← hjoin]
    · have hunfinished : (0x0A : UInt8) ∉ unfinished ++ [b] := by
        intro hm
        rcases List.mem_append.mp hm with hm | hm
        · exact h hm
        · exact hb (List.mem_singleton.mp hm).symm
      obtain ⟨hjoin, hrest⟩ := ih hunfinished
      rw [linesOfChunk_cons hb]
      refine ⟨?_, hrest⟩
      rw [← hjoin, List.append_assoc, List.singleton_append]

/-- As many lines end as there are newlines. -/
theorem length_linesOfChunk (unfinished chunk : List UInt8) :
    (linesOfChunk unfinished chunk).1.length = chunk.count 0x0A := by
  induction chunk generalizing unfinished with
  | nil => rw [linesOfChunk_nil, List.count_nil, List.length_nil]
  | cons b chunk ih =>
    by_cases hb : b = 0x0A
    · subst hb
      rw [linesOfChunk_newline, List.count_cons_self, List.length_cons, ih]
    · rw [linesOfChunk_cons hb, ih, List.count_cons_of_ne (by simpa using hb)]

theorem count_unlines {lines : List (List UInt8)} (h : ∀ line ∈ lines, (0x0A : UInt8) ∉ line) :
    (unlines lines).count 0x0A = lines.length := by
  rw [← length_linesOfChunk [], linesOfChunk_unlines h]

/-- Where the bytes heard so far end within the last of some lines that are all still to come, the lines that were not
    heard yet are among these. -/
theorem heard_of_suffix {owed heard late : List UInt8} {before : List (List UInt8)} {lines after : List (List UInt8)}
    (hafter : ∀ line ∈ after, (0x0A : UInt8) ∉ line) (hlate : late <:+ unlines after)
    (howed : linesOfChunk unfinished owed = (before, []))
    (hlines : ∀ line ∈ lines, (0x0A : UInt8) ∉ line)
    (hheard : owed ++ unlines (lines ++ after) = heard ++ late) :
    ∃ sofar later, after = sofar ++ later ∧ (linesOfChunk unfinished heard).1 = before ++ lines ++ sofar ∧
      linesOfChunk (linesOfChunk unfinished heard).2 late = (later, []) := by
  have hboth : ∀ line ∈ lines ++ after, (0x0A : UInt8) ∉ line := by
    intro line hm
    rcases List.mem_append.mp hm with hm | hm
    · exact hlines line hm
    · exact hafter line hm
  have hwhole : linesOfChunk unfinished (heard ++ late) = (before ++ (lines ++ after), []) := by
    rw [← hheard, linesOfChunk_append, howed, linesOfChunk_unlines hboth]
  rw [linesOfChunk_append] at hwhole
  obtain ⟨hsplit, hend⟩ := Prod.mk.inj hwhole
  -- No more lines end in what is still to come than there are newlines in it.
  have hcount : (linesOfChunk (linesOfChunk unfinished heard).2 late).1.length ≤ after.length := by
    rw [length_linesOfChunk, ← count_unlines hafter]
    exact hlate.sublist.count_le _
  rw [← List.append_assoc] at hsplit
  have hsuffix : (linesOfChunk (linesOfChunk unfinished heard).2 late).1 <:+ after :=
    List.suffix_of_suffix_length_le ⟨_, hsplit⟩ (List.suffix_append _ _) hcount
  obtain ⟨sofar, hsofar⟩ := hsuffix
  refine ⟨sofar, _, hsofar.symm, ?_, Prod.ext rfl hend⟩
  rw [← hsofar, ← List.append_assoc] at hsplit
  exact List.append_cancel_right hsplit

end ScriptLink
