import Palisade.Http.Head

/-!
# A head is decided by its own bytes

A scan that has found its value or an offence gives the same answer when more bytes follow; only a
scan that asks for more bytes can change its mind. Scans that run one after the other inherit this
from their parts, so that the head of a request does not depend on how much of the connection had
arrived when it was looked at.
-/
namespace Palisade.Head

open Palisade.Text

variable {α β : Type}

/-- The answer of a scan when more bytes follow those it was given and it does not look at them. -/
def grown (more : Bytes) : Scan α → Scan α
  | .ok (value, rest) => .ok (value, rest ++ more)
  | .error stop => .error stop

/-- More bytes change nothing once a scan has given a value or found an offence. -/
def Settled (scan : Bytes → Scan α) : Prop :=
  ∀ s more, scan s ≠ .error .incomplete → scan (s ++ more) = grown more (scan s)

/-- What a settled scan has read it reads with more bytes behind it. -/
theorem Settled.of_ok {scan : Bytes → Scan α} (settled : Settled scan) {s rest : Bytes} {value : α}
    (h : scan s = .ok (value, rest)) (more : Bytes) :
    scan (s ++ more) = .ok (value, rest ++ more) := by
  have hg := settled s more (by simp [h])
  rwa [h] at hg

/-- What offends a settled scan offends it with more bytes behind it. -/
theorem Settled.of_offence {scan : Bytes → Scan α} (settled : Settled scan) {s : Bytes} {o : Offence}
    (h : scan s = .error (.offence o)) (more : Bytes) :
    scan (s ++ more) = .error (.offence o) := by
  have hg := settled s more (by simp [h])
  rwa [h] at hg

/-! ### Scans in sequence -/

/-- A scan that takes nothing is settled. -/
theorem settled_pure (value : α) : Settled fun s => (.ok (value, s) : Scan α) := by
  intro s more _
  rfl

/-- Two settled scans in a row are settled. -/
theorem Settled.bind {scan : Bytes → Scan α} {next : α → Bytes → Scan β} (first : Settled scan)
    (second : ∀ value, Settled (next value)) :
    Settled fun s => Except.bind (scan s) fun p => next p.1 p.2 := by
  intro s more h
  have hs : scan s ≠ .error .incomplete := by
    intro hi
    exact h (by simp [hi, Except.bind])
  have hf := first s more hs
  cases hc : scan s with
  | error stop => simp [hf, hc, grown, Except.bind]
  | ok p =>
    have hn : next p.1 p.2 ≠ .error .incomplete := by
      intro hi
      exact h (by simp [hc, Except.bind, hi])
    simpa [hf, hc, grown, Except.bind] using second p.1 p.2 more hn

/-! ### Runs of bytes of one class -/

/-- A run that ends within the bytes ends at the same place when more follow. -/
theorem run_append {p : UInt8 → Bool} {s rest : Bytes} {b : UInt8} (more : Bytes)
    (h : s.dropWhile p = b :: rest) :
    (s ++ more).dropWhile p = b :: (rest ++ more) ∧ (s ++ more).takeWhile p = s.takeWhile p := by
  induction s with
  | nil => simp at h
  | cons x s ih =>
    by_cases hx : p x = true
    · rw [List.dropWhile_cons_of_pos hx] at h
      obtain ⟨hd, ht⟩ := ih h
      rw [List.cons_append, List.dropWhile_cons_of_pos hx, List.takeWhile_cons_of_pos hx,
        List.takeWhile_cons_of_pos hx, hd, ht]
      exact ⟨rfl, rfl⟩
    · rw [List.dropWhile_cons_of_neg hx] at h
      simp only [List.cons.injEq] at h
      obtain ⟨rfl, rfl⟩ := h
      rw [List.cons_append, List.dropWhile_cons_of_neg hx, List.takeWhile_cons_of_neg hx,
        List.takeWhile_cons_of_neg hx]
      exact ⟨rfl, rfl⟩

/-! ### The scans of a head -/

/-- A line feed in front is an empty line. -/
theorem skipEmptyLines_lf (s : Bytes) : skipEmptyLines (lf :: s) = skipEmptyLines s := by
  cases s with
  | nil => rfl
  | cons b s => rw [skipEmptyLines, if_pos rfl]

/-- A carriage return in front is one with a line feed behind it, and else an offence. -/
theorem skipEmptyLines_cr (b : UInt8) (s : Bytes) :
    skipEmptyLines (cr :: b :: s) =
      if b = lf then skipEmptyLines s else .error (.offence .newLine) := by
  rw [skipEmptyLines, if_neg (by decide), if_pos rfl]

/-- Another byte in front is the begin of something else. -/
theorem skipEmptyLines_of_ne {b : UInt8} (hl : b ≠ lf) (hc : b ≠ cr) (s : Bytes) :
    skipEmptyLines (b :: s) = .ok ((), b :: s) := by
  cases s <;> rw [skipEmptyLines, if_neg hl, if_neg hc]

/-- Empty lines are skipped as soon as something else stands behind them. -/
theorem settled_skipEmptyLines : Settled skipEmptyLines := by
  intro s more h
  fun_induction skipEmptyLines s with
  | case1 => simp at h
  | case2 tail ih => rw [List.cons_append, skipEmptyLines_lf, ih h]
  | case3 => simp at h
  | case4 _ tail ih =>
    rw [List.cons_append, List.cons_append, skipEmptyLines_cr, if_pos rfl, ih h]
  | case5 b tail hl =>
    rw [List.cons_append, List.cons_append, skipEmptyLines_cr, if_neg hl]
    rfl
  | case6 b tail hl hc =>
    rw [List.cons_append, skipEmptyLines_of_ne hl hc]
    rfl

/-- The end of a line is settled by its two bytes. -/
theorem settled_lineEnd (offence : Offence) : Settled (lineEnd offence) := by
  intro s more h
  fun_cases lineEnd offence s <;> simp_all [lineEnd, grown]

/-- A method is settled by the blank behind it. -/
theorem settled_scanMethod : Settled scanMethod := by
  intro s more h
  unfold scanMethod at h ⊢
  cases hd : s.dropWhile isTokenByte with
  | nil => simp [hd] at h
  | cons b tail =>
    obtain ⟨hm, ht⟩ := run_append more hd
    simp only [hm, ht]
    split <;> rfl

/-- A target is settled by the blank behind it. -/
theorem settled_scanTarget : Settled scanTarget := by
  intro s more h
  unfold scanTarget at h ⊢
  cases hd : s.dropWhile isTargetByte with
  | nil => simp [hd] at h
  | cons b tail =>
    obtain ⟨hm, ht⟩ := run_append more hd
    simp only [hm, ht]
    split
    · split <;> rfl
    · rfl

/-- The byte after the fixed start of the version. -/
theorem drop_versionStart_append {s rest : Bytes} {b : UInt8} (more : Bytes)
    (h : s.drop versionStart.length = b :: rest) :
    (s ++ more).drop versionStart.length = b :: (rest ++ more) := by
  have hl : versionStart.length ≤ s.length := by
    have := congrArg List.length h
    simp only [List.length_drop, List.length_cons] at this
    omega
  rw [List.drop_append_of_le_length hl, h, List.cons_append]

/-- A version is settled by its eight bytes. -/
theorem settled_scanVersion : Settled scanVersion := by
  intro s more h
  unfold scanVersion at h ⊢
  by_cases hp : versionStart.isPrefixOf s = true
  · have hp' : versionStart.isPrefixOf (s ++ more) = true := by
      rw [List.isPrefixOf_iff_prefix] at hp ⊢
      exact hp.trans (List.prefix_append s more)
    simp only [hp, if_true] at h
    simp only [hp, hp', if_true]
    cases hd : s.drop versionStart.length with
    | nil => simp [hd] at h
    | cons b tail =>
      simp only [drop_versionStart_append more hd]
      split
      · rfl
      · split <;> rfl
  · by_cases hs : s.isPrefixOf versionStart = true
    · simp [hp, hs] at h
    · have hp' : ¬ versionStart.isPrefixOf (s ++ more) = true := by
        rw [List.isPrefixOf_iff_prefix] at hp hs ⊢
        intro hm
        rcases List.prefix_or_prefix_of_prefix hm (List.prefix_append s more) with hv | hv
        · exact hp hv
        · exact hs hv
      have hs' : ¬ (s ++ more).isPrefixOf versionStart = true := by
        rw [List.isPrefixOf_iff_prefix] at hs ⊢
        intro hm
        exact hs ((List.prefix_append s more).trans hm)
      rw [if_neg hp', if_neg hs', if_neg hp, if_neg hs]
      rfl

/-- A value is settled by the end of its line. -/
theorem settled_fieldValue : Settled fieldValue := by
  intro s more h
  unfold fieldValue at h ⊢
  cases hd : s.dropWhile isValueBlank with
  | nil => simp [hd, lineEnd] at h
  | cons b tail =>
    have hb := (run_append more hd).1
    cases hv : (b :: tail).dropWhile isValueByte with
    | nil => simp [hd, hv, lineEnd] at h
    | cons c rest =>
      obtain ⟨hm, ht⟩ := run_append more hv
      simp only [hd, hv] at h
      simp only [hb, hv, ← List.cons_append, hm, ht]
      have hl : lineEnd .headerValue (c :: rest) ≠ .error .incomplete := by
        intro hi
        simp [hi] at h
      rw [settled_lineEnd .headerValue (c :: rest) more hl]
      cases lineEnd .headerValue (c :: rest) <;> rfl

/-- A field is settled by the end of its line. -/
theorem settled_scanField : Settled scanField := by
  intro s more h
  unfold scanField at h ⊢
  cases hd : s.dropWhile isTokenByte with
  | nil => simp [hd] at h
  | cons b tail =>
    obtain ⟨hm, ht⟩ := run_append more hd
    simp only [hd] at h
    simp only [hm, ht]
    split
    · rename_i hb
      rw [if_pos hb] at h
      have hv : fieldValue tail ≠ .error .incomplete := by
        intro hi
        simp [hi] at h
      rw [settled_fieldValue tail more hv]
      cases fieldValue tail <;> rfl
    · rfl

/-- Whether an empty line stands in front is told by the bytes that are there, if there are any. -/
theorem atEmptyLine_append {s : Bytes} (hs : s ≠ []) (more : Bytes) :
    atEmptyLine (s ++ more) = atEmptyLine s := by
  cases s with
  | nil => exact absurd rfl hs
  | cons b s => rfl

/-- The line that ends the head. -/
theorem settled_emptyLine : Settled fun s =>
    (match lineEnd .newLine s with
      | .ok ((), rest) => .ok ([], rest)
      | .error stop => .error stop : Scan (List (Bytes × Bytes))) := by
  intro s more h
  have hl : lineEnd .newLine s ≠ .error .incomplete := by
    intro hi
    simp [hi] at h
  simp only [settled_lineEnd .newLine s more hl]
  cases lineEnd .newLine s <;> rfl

/-- Fields are settled by the empty line behind them. -/
theorem settled_scanFields (room : Nat) : Settled (scanFields room) := by
  induction room with
  | zero =>
    intro s more h
    have hs : s ≠ [] := by
      rintro rfl
      exact h rfl
    unfold scanFields at h ⊢
    rw [atEmptyLine_append hs]
    split
    · rename_i he
      rw [if_pos he] at h
      exact settled_emptyLine s more h
    · rename_i he
      rw [if_neg he] at h
      have hf : scanField s ≠ .error .incomplete := by
        intro hi
        simp [hi] at h
      rw [settled_scanField s more hf]
      cases scanField s <;> rfl
  | succ room ih =>
    intro s more h
    have hs : s ≠ [] := by
      rintro rfl
      exact h rfl
    unfold scanFields at h ⊢
    rw [atEmptyLine_append hs]
    split
    · rename_i he
      rw [if_pos he] at h
      exact settled_emptyLine s more h
    · rename_i he
      rw [if_neg he] at h
      have hf : scanField s ≠ .error .incomplete := by
        intro hi
        simp [hi] at h
      rw [settled_scanField s more hf]
      cases hc : scanField s with
      | error stop => rfl
      | ok p =>
        have hr : scanFields room p.2 ≠ .error .incomplete := by
          intro hi
          simp [hc, hi] at h
        simp only [grown, ih p.2 more hr]
        cases scanFields room p.2 <;> rfl

/-- A head is found, or found wanting, by its own bytes. -/
theorem settled_scan : Settled scan := by
  have hs : scan = fun s =>
      Except.bind (skipEmptyLines s) fun p₁ =>
      Except.bind (scanMethod p₁.2) fun p₂ =>
      Except.bind (scanTarget p₂.2) fun p₃ =>
      Except.bind (scanVersion p₃.2) fun p₄ =>
      Except.bind (lineEnd .newLine p₄.2) fun p₅ =>
      Except.bind (scanFields maxFields p₅.2) fun p₆ =>
      .ok (⟨p₂.1, p₃.1, p₄.1, p₆.1⟩, p₆.2) := rfl
  rw [hs]
  exact settled_skipEmptyLines.bind fun _ =>
    settled_scanMethod.bind fun method =>
    settled_scanTarget.bind fun target =>
    settled_scanVersion.bind fun minor =>
    (settled_lineEnd .newLine).bind fun _ =>
    (settled_scanFields maxFields).bind fun fields =>
    settled_pure (Head.mk method target minor fields)

end Palisade.Head
