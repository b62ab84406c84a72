import MotionMidi.Proofs.Pitch.Quantizing

/-!
# Searching a table

The place of a candidate among the notes is found by a search that takes them to be ascending. In a
table that is not, it may find any place. A candidate still gives a note of the table then, and
whether it gives one never depends on the search.

## Main definitions

- `NoteTable.SplitsAt` — a place parts the notes below a candidate from the others
- `NoteTable.splitPlace` — how many notes at the front lie below a candidate
- `NoteTable.quantizeWith` — the note that a candidate gives, with some search

Main statements: `NoteTable.splitsAt_splitPlace`, `NoteTable.quantizeWith_of_splitsAt`,
`NoteTable.quantizeWith_of_empty`, `NoteTable.exists_quantizeWith`.
-/

namespace MotionMidi.NoteTable

variable {table : NoteTable} {notes : List Nat} {candidate note place : Nat}

/-- The notes before a place lie below a candidate, and those from it on do not. -/
structure SplitsAt (notes : List Nat) (candidate place : Nat) : Prop where
  le : place ≤ notes.length
  below : ∀ note ∈ notes.take place, note < candidate
  above : ∀ note ∈ notes.drop place, candidate ≤ note

/-- How many notes at the front lie below a candidate. -/
def splitPlace (notes : List Nat) (candidate : Nat) : Nat :=
  (notes.takeWhile (· < candidate)).length

/-- There is at most one place to split notes at. -/
theorem SplitsAt.eq_splitPlace (h : SplitsAt notes candidate place) :
    place = splitPlace notes candidate := by
  have hfront : ∀ note ∈ notes.take place, decide (note < candidate) = true :=
    fun note hnote => decide_eq_true (h.below note hnote)
  have hback : (notes.drop place).takeWhile (· < candidate) = [] := by
    cases hdrop : notes.drop place with
    | nil => rfl
    | cons note rest =>
      have hle : candidate ≤ note := h.above note (hdrop ▸ List.mem_cons_self ..)
      exact List.takeWhile_cons_of_neg (by simpa using hle)
  conv_rhs => rw [splitPlace, ← List.take_append_drop place notes]
  rw [List.takeWhile_append_of_pos hfront, hback, List.append_nil, List.length_take,
    Nat.min_eq_left h.le]

/-- In an ascending table there is one for every candidate. -/
theorem splitsAt_splitPlace (h : table.Ascending) (candidate : Nat) :
    SplitsAt table.notes candidate (splitPlace table.notes candidate) := by
  have hsplit := List.takeWhile_append_dropWhile (p := (· < candidate)) (l := table.notes)
  have hfront : ∀ note ∈ table.notes.takeWhile (· < candidate), note < candidate :=
    fun note hnote => by simpa using List.mem_takeWhile_imp hnote
  have hhead := List.head?_dropWhile_not (· < candidate) table.notes
  rw [Ascending, ← hsplit, List.pairwise_append] at h
  obtain ⟨-, hback, -⟩ := h
  unfold splitPlace
  generalize table.notes.takeWhile (· < candidate) = front at hsplit hfront ⊢
  generalize table.notes.dropWhile (· < candidate) = back at hsplit hhead hback
  rw [← hsplit]
  refine ⟨?le, ?below, ?above⟩
  case le =>
    rw [List.length_append]
    exact Nat.le_add_right _ _
  case below =>
    rw [List.take_left]
    exact hfront
  case above =>
    rw [List.drop_left]
    intro note hnote
    cases back with
    | nil => cases hnote
    | cons first rest =>
      have hfirst : candidate ≤ first := by simpa using hhead
      exact Nat.le_trans hfirst (hback.rel_head hnote)

/-- The note before a place, and the one in it. -/
def neighbours (notes : List Nat) (place : Nat) : Option Nat × Option Nat :=
  (if place = 0 then none else notes[place - 1]?, notes[place]?)

theorem mem_of_neighbours {below? above? : Option Nat}
    (h : neighbours notes place = (below?, above?)) :
    (∀ note ∈ below?, note ∈ notes) ∧ ∀ note ∈ above?, note ∈ notes := by
  cases h
  constructor
  · intro note hnote
    split at hnote
    case isTrue => cases hnote
    case isFalse => exact List.mem_of_getElem? hnote
  · exact fun note hnote => List.mem_of_getElem? hnote

theorem neighbours_splitPlace (table : NoteTable) (candidate : Nat) :
    neighbours table.notes (splitPlace table.notes candidate) =
      (table.below? candidate, table.above? candidate) := by
  have hsplit := List.takeWhile_append_dropWhile (p := (· < candidate)) (l := table.notes)
  unfold neighbours splitPlace below? above?
  generalize table.notes.takeWhile (· < candidate) = front at hsplit ⊢
  generalize table.notes.dropWhile (· < candidate) = back at hsplit ⊢
  rw [← hsplit, Prod.mk.injEq]
  constructor
  · split
    case isTrue hempty => rw [List.eq_nil_of_length_eq_zero hempty, List.getLast?_nil]
    case isFalse hne => rw [List.getElem?_append_left (by omega), List.getLast?_eq_getElem?]
  · rw [List.getElem?_append_right (Nat.le_refl _), Nat.sub_self, List.head?_eq_getElem?]

/-- The nearer of two notes, the one below if both are equally near. -/
def closer (below above candidate : Nat) : Nat :=
  if Nat.dist above candidate < Nat.dist candidate below then above else below

/-- Of two notes around a candidate, the closer one is the nearer one. -/
theorem closer_eq_nearer {below above : Nat} (hbelow : below < candidate)
    (habove : candidate ≤ above) : closer below above candidate = nearer below above candidate := by
  rw [closer, nearer, Nat.dist_comm, Nat.dist_eq_sub_of_le habove, Nat.dist_comm,
    Nat.dist_eq_sub_of_le hbelow.le]

/-- The note that a candidate gives, where a search tells its place in the table. -/
def quantizeWith (search : List Nat → Nat → Nat) (table : NoteTable) (candidate : Nat) :
    Except Error Nat :=
  match table.bounds? with
  | none => .error .noteModeUnavailable
  | some (lowest, highest) =>
    if candidate ≤ lowest then .ok lowest
    else
      match neighbours table.notes (search table.notes candidate) with
      | (_, none) => .ok highest
      | (none, some above) => .ok above
      | (some below, some above) => .ok (closer below above candidate)

variable {search : List Nat → Nat → Nat}

/-- Counting the notes below the candidate is one such search. -/
theorem quantizeWith_splitPlace (table : NoteTable) (candidate : Nat) :
    table.quantizeWith splitPlace candidate = table.quantize candidate := by
  cases hbounds : table.bounds? with
  | none => rw [quantizeWith, quantize, hbounds]
  | some bounds =>
    rw [quantize_of_bounds hbounds, quantizeWith, hbounds]
    dsimp only
    rw [neighbours_splitPlace]
    split
    case isTrue => rfl
    case isFalse =>
      cases hbelow : table.below? candidate with
      | none => cases table.above? candidate <;> rfl
      | some below =>
        cases habove : table.above? candidate with
        | none => rfl
        | some above =>
          dsimp only
          rw [closer_eq_nearer (of_below? hbelow).2 (of_above? habove).2]

/-- A search that finds where to split the notes makes no difference. -/
theorem quantizeWith_of_splitsAt
    (h : SplitsAt table.notes candidate (search table.notes candidate)) :
    table.quantizeWith search candidate = table.quantize candidate := by
  rw [← quantizeWith_splitPlace, quantizeWith, quantizeWith, h.eq_splitPlace]

theorem quantizeWith_of_empty (search : List Nat → Nat → Nat) (h : table.notes = [])
    (candidate : Nat) : table.quantizeWith search candidate = .error .noteModeUnavailable := by
  rw [quantizeWith, bounds?_eq_none_iff.mpr h]

/-- Whatever the search finds, a candidate gives a note of a table that has any. -/
theorem exists_quantizeWith (search : List Nat → Nat → Nat) (h : table.notes ≠ [])
    (candidate : Nat) :
    ∃ note ∈ table.notes, table.quantizeWith search candidate = .ok note := by
  cases hbounds : table.bounds? with
  | none => exact absurd (bounds?_eq_none_iff.mp hbounds) h
  | some bounds =>
    obtain ⟨hlowest, hhighest⟩ := mem_of_bounds? hbounds
    rw [quantizeWith, hbounds]
    dsimp only
    split
    case isTrue => exact ⟨_, hlowest, rfl⟩
    case isFalse =>
      split
      case h_1 => exact ⟨_, hhighest, rfl⟩
      case h_2 above hneighbours =>
        exact ⟨_, (mem_of_neighbours hneighbours).2 above rfl, rfl⟩
      case h_3 below above hneighbours =>
        obtain ⟨hbelow, habove⟩ := mem_of_neighbours hneighbours
        refine ⟨_, ?_, rfl⟩
        unfold closer
        split
        · exact habove above rfl
        · exact hbelow below rfl

end MotionMidi.NoteTable
