import Mathlib.Data.List.Pairwise
import Mathlib.Data.List.TakeWhile
import Mathlib.Data.Nat.Dist
import MotionMidi.Proofs.Pitch.NoteTable

/-!
# The nearest note

Only the two neighbours of a candidate are ever looked at. In an ascending table one of them is
nearest among all notes, so that is the note a candidate snaps to.

## Main definitions

- `NoteTable.IsNearest` — a note of the table is nearest to a candidate, and the lowest such note

Main statement: `NoteTable.quantize_nearest`.
-/

namespace MotionMidi.NoteTable

variable {table : NoteTable} {candidate note : Nat}

/-- No note of the table is nearer to the candidate, and none that is equally near is lower. -/
structure IsNearest (table : NoteTable) (candidate note : Nat) : Prop where
  mem : note ∈ table.notes
  near : ∀ other ∈ table.notes, Nat.dist note candidate ≤ Nat.dist other candidate
  low : ∀ other ∈ table.notes, Nat.dist other candidate = Nat.dist note candidate → note ≤ other

namespace IsNearest

theorem unique {other : Nat} (h : table.IsNearest candidate note)
    (hother : table.IsNearest candidate other) : note = other := by
  have hdist : Nat.dist note candidate = Nat.dist other candidate :=
    Nat.le_antisymm (h.near other hother.mem) (hother.near note h.mem)
  exact Nat.le_antisymm (h.low other hother.mem hdist.symm) (hother.low note h.mem hdist)

theorem of_mem (h : note ∈ table.notes) : table.IsNearest note note := by
  have hself : Nat.dist note note = 0 := Nat.dist_self note
  refine ⟨h, fun other _ => ?_, fun other _ heq => ?_⟩
  · rw [hself]
    exact Nat.zero_le _
  · rw [hself] at heq
    exact (Nat.eq_of_dist_eq_zero heq).ge

/-- A higher candidate is never nearest to a lower note. -/
theorem mono {low high lower higher : Nat} (hle : low ≤ high) (hlow : table.IsNearest low lower)
    (hhigh : table.IsNearest high higher) : lower ≤ higher := by
  by_contra hlt
  have hnear := hlow.near higher hhigh.mem
  have hne := mt (hlow.low higher hhigh.mem) hlt
  have hnear' := hhigh.near lower hlow.mem
  -- The middle between the two notes lies below the low candidate, and not below the high one.
  unfold Nat.dist at hnear hne hnear'
  omega

end IsNearest

/-! ## The two neighbours -/

/-- The last note below the candidate. -/
def below? (table : NoteTable) (candidate : Nat) : Option Nat :=
  (table.notes.takeWhile (· < candidate)).getLast?

/-- The first note that is not below the candidate. -/
def above? (table : NoteTable) (candidate : Nat) : Option Nat :=
  (table.notes.dropWhile (· < candidate)).head?

theorem of_below? {below : Nat} (h : table.below? candidate = some below) :
    below ∈ table.notes ∧ below < candidate := by
  have hmem := List.mem_of_getLast? h
  exact ⟨(List.takeWhile_prefix _).subset hmem, by simpa using List.mem_takeWhile_imp hmem⟩

theorem of_above? {above : Nat} (h : table.above? candidate = some above) :
    above ∈ table.notes ∧ candidate ≤ above := by
  refine ⟨(List.dropWhile_suffix _).subset (List.mem_of_mem_head? h), ?_⟩
  have hnot := List.head?_dropWhile_not (· < candidate) table.notes
  rw [above?] at h
  rw [h] at hnot
  simpa using hnot

/-- In an ascending table every note lies behind one of the two neighbours. -/
theorem behind_neighbour (h : table.Ascending) (candidate : Nat) (hnote : note ∈ table.notes) :
    (∃ below, table.below? candidate = some below ∧ note ≤ below) ∨
      ∃ above, table.above? candidate = some above ∧ above ≤ note := by
  have hsplit := List.takeWhile_append_dropWhile (p := (· < candidate)) (l := table.notes)
  rw [Ascending, ← hsplit, List.pairwise_append] at h
  rw [← hsplit, List.mem_append] at hnote
  obtain ⟨hfront, hback, -⟩ := h
  rcases hnote with hnote | hnote
  · left
    have hne := List.ne_nil_of_mem hnote
    refine ⟨_, List.getLast?_eq_some_getLast hne, ?_⟩
    exact hfront.rel_getLast hnote
  · right
    have hne := List.ne_nil_of_mem hnote
    refine ⟨_, List.head?_eq_some_head hne, ?_⟩
    exact hback.rel_head hnote

/-! ## Quantizing -/

theorem quantize_of_bounds {lowest highest : Nat} (h : table.bounds? = some (lowest, highest))
    (candidate : Nat) : table.quantize candidate =
      if candidate ≤ lowest then .ok lowest
      else match table.below? candidate, table.above? candidate with
        | some below, some above => .ok (nearer below above candidate)
        | none, some above => .ok above
        | _, none => .ok highest := by
  rw [quantize, h]
  rfl

theorem bounds?_eq_none_iff : table.bounds? = none ↔ table.notes = [] := by
  unfold bounds?
  cases h : table.notes with
  | nil => simp
  | cons note notes => simp [List.getLast?_cons]

theorem quantize_of_empty (h : table.notes = []) (candidate : Nat) :
    table.quantize candidate = .error .noteModeUnavailable := by
  rw [quantize, bounds?_eq_none_iff.mpr h]

/-- Unless the table is empty, there is a note to snap to. -/
theorem exists_quantize (h : table.notes ≠ []) (candidate : Nat) :
    ∃ note, table.quantize candidate = .ok note := by
  cases hbounds : table.bounds? with
  | none => exact absurd (bounds?_eq_none_iff.mp hbounds) h
  | some bounds =>
    rw [quantize_of_bounds hbounds]
    split
    · exact ⟨_, rfl⟩
    · split <;> exact ⟨_, rfl⟩

theorem isNearest_nearer (h : table.Ascending) {below above : Nat}
    (hbelow : table.below? candidate = some below) (habove : table.above? candidate = some above) :
    table.IsNearest candidate (nearer below above candidate) := by
  obtain ⟨hmem, hlt⟩ := of_below? hbelow
  obtain ⟨hmem', hle⟩ := of_above? habove
  have hbehind (other : Nat) (hother : other ∈ table.notes) : other ≤ below ∨ above ≤ other := by
    rcases behind_neighbour h candidate hother with ⟨_, heq, hother⟩ | ⟨_, heq, hother⟩
    · cases hbelow.symm.trans heq
      exact .inl hother
    · cases habove.symm.trans heq
      exact .inr hother
  unfold nearer
  split
  case isTrue hnearer =>
    refine ⟨hmem', fun other hother => ?_, fun other hother heq => ?_⟩
    · have := hbehind other hother
      unfold Nat.dist
      omega
    · have := hbehind other hother
      unfold Nat.dist at heq
      omega
  case isFalse hnearer =>
    refine ⟨hmem, fun other hother => ?_, fun other hother heq => ?_⟩
    · have := hbehind other hother
      unfold Nat.dist
      omega
    · have := hbehind other hother
      unfold Nat.dist at heq
      omega

/-- A note that all others lie above is nearest to whatever lies below it. -/
theorem isNearest_of_le (hmem : note ∈ table.notes) (hle : ∀ other ∈ table.notes, note ≤ other)
    (h : candidate ≤ note) : table.IsNearest candidate note := by
  refine ⟨hmem, fun other hother => ?_, fun other hother _ => hle other hother⟩
  have := hle other hother
  unfold Nat.dist
  omega

/-- A note that all others lie below is nearest to whatever lies above it. -/
theorem isNearest_of_ge (hmem : note ∈ table.notes) (hge : ∀ other ∈ table.notes, other ≤ note)
    (h : note ≤ candidate) : table.IsNearest candidate note := by
  refine ⟨hmem, fun other hother => ?_, fun other hother heq => ?_⟩
  · have := hge other hother
    unfold Nat.dist
    omega
  · have := hge other hother
    unfold Nat.dist at heq
    omega

/-- The bounds of an ascending table enclose it. -/
theorem le_of_bounds? (h : table.Ascending) {lowest highest : Nat}
    (hbounds : table.bounds? = some (lowest, highest)) (hnote : note ∈ table.notes) :
    lowest ≤ note ∧ note ≤ highest := by
  obtain ⟨hhead, hlast⟩ := bounds?_eq_some_iff.mp hbounds
  have hne := List.ne_nil_of_mem hnote
  rw [List.head?_eq_some_head hne, Option.some_inj] at hhead
  rw [List.getLast?_eq_some_getLast hne, Option.some_inj] at hlast
  rw [← hhead, ← hlast]
  exact ⟨List.Pairwise.rel_head h hnote, List.Pairwise.rel_getLast h hnote⟩

theorem isNearest_of_quantize (h : table.Ascending) (hnote : table.quantize candidate = .ok note) :
    table.IsNearest candidate note := by
  cases hbounds : table.bounds? with
  | none =>
    rw [quantize, hbounds] at hnote
    cases hnote
  | some bounds =>
    obtain ⟨lowest, highest⟩ := bounds
    obtain ⟨hlowest, hhighest⟩ := mem_of_bounds? hbounds
    rw [quantize_of_bounds hbounds] at hnote
    split at hnote
    case isTrue hle =>
      cases hnote
      exact isNearest_of_le hlowest (fun other hother => (le_of_bounds? h hbounds hother).1) hle
    case isFalse =>
      split at hnote
      case h_1 below above hbelow habove =>
        cases hnote
        exact isNearest_nearer h hbelow habove
      case h_2 above hbelow habove =>
        cases hnote
        obtain ⟨hmem, hle⟩ := of_above? habove
        refine isNearest_of_le hmem (fun other hother => ?_) hle
        simpa [hbelow, habove] using behind_neighbour h candidate hother
      case h_3 habove =>
        cases hnote
        -- Every note lies behind the lower neighbour, the highest one too.
        obtain ⟨below, hbelow, hle⟩ :
            ∃ below, table.below? candidate = some below ∧ note ≤ below := by
          simpa [habove] using behind_neighbour h candidate hhighest
        refine isNearest_of_ge hhighest (fun other hother => (le_of_bounds? h hbounds hother).2) ?_
        exact Nat.le_of_lt (Nat.lt_of_le_of_lt hle (of_below? hbelow).2)

/-- Notes of an ascending table stay where they are. -/
theorem quantize_of_mem (h : table.Ascending) (hnote : note ∈ table.notes) :
    table.quantize note = .ok note := by
  obtain ⟨other, hother⟩ := exists_quantize (List.ne_nil_of_mem hnote) note
  rw [hother, (isNearest_of_quantize h hother).unique (.of_mem hnote)]

/-- In an ascending table, candidates snap to the nearest note, and to the lower one of two that are
equally near. So they keep their order, and notes of the table stay where they are. An empty table
has no note to snap to, and any other one has. -/
theorem quantize_nearest (table : NoteTable) (h : table.Ascending) :
    (∀ candidate note, table.quantize candidate = .ok note ↔ table.IsNearest candidate note) ∧
      (table.notes ≠ [] → ∀ candidate, ∃ note, table.quantize candidate = .ok note) ∧
      (∀ low high lower higher, low ≤ high → table.quantize low = .ok lower →
        table.quantize high = .ok higher → lower ≤ higher) ∧
      (∀ note ∈ table.notes, table.quantize note = .ok note) ∧
      (table.notes = [] → ∀ candidate, table.quantize candidate = .error .noteModeUnavailable) := by
  have hiff (candidate note : Nat) :
      table.quantize candidate = .ok note ↔ table.IsNearest candidate note := by
    refine ⟨isNearest_of_quantize h, fun hnearest => ?_⟩
    obtain ⟨other, hother⟩ := exists_quantize (List.ne_nil_of_mem hnearest.mem) candidate
    rw [hother, (isNearest_of_quantize h hother).unique hnearest]
  refine ⟨hiff, exists_quantize, ?_, ?_, quantize_of_empty⟩
  · intro low high lower higher hle hlow hhigh
    exact ((hiff low lower).mp hlow).mono hle ((hiff high higher).mp hhigh)
  · intro note hnote
    exact (hiff note note).mpr (.of_mem hnote)

/-- A candidate in the middle between two notes, the lower one of which is in the table twice. -/
theorem quantize_nearest_tie :
    let table : NoteTable := ⟨[60, 60, 64, 67]⟩
    table.Ascending ∧ table.quantize 62 = .ok 60 ∧ table.IsNearest 62 60 ∧
      table.quantize 63 = .ok 64 ∧ table.IsNearest 63 64 := by
  intro table
  have hascending : table.Ascending := by
    decide
  obtain ⟨hiff, -⟩ := quantize_nearest table hascending
  have htie : table.quantize 62 = .ok 60 := rfl
  have habove : table.quantize 63 = .ok 64 := rfl
  exact ⟨hascending, htie, (hiff 62 60).mp htie, habove, (hiff 63 64).mp habove⟩

end MotionMidi.NoteTable
