import Mathlib.Data.List.Nodup
import Mathlib.Data.List.Perm.Subperm
import MotionMidi.Pitch.NoteTable

/-!
# The notes of a table

A table holds the playable notes of its scale, octave by octave. Scales that a configuration can
have fit in whole, and a reading only ever chooses notes of the table.

Main statements: `NoteTable.notes_build`, `NoteTable.lowestNote_le_of_mem_build`,
`NoteTable.length_scaleNotes_le`, `NoteTable.mem_of_quantize`.
-/

namespace MotionMidi.NoteTable

variable {table : NoteTable}

/-- All notes are notes that MIDI has. -/
def Playable (table : NoteTable) : Prop :=
  ∀ note ∈ table.notes, note ≤ highestNote

/-- No note is followed by a lower one. -/
def Ascending (table : NoteTable) : Prop :=
  table.notes.Pairwise (· ≤ ·)

instance : DecidablePred Ascending := fun table =>
  inferInstanceAs (Decidable (table.notes.Pairwise (· ≤ ·)))

/-- The playable notes of a scale, octave by octave. -/
def scaleNotes (root : Key) (intervals octaves : List Nat) : List Nat :=
  (octaves.flatMap fun octave => intervals.map (rootNote root octave + ·)).filter (· ≤ highestNote)

/-- A playable note is added while there is room. -/
theorem notes_add (h : table.notes.length ≤ capacity) (note : Nat) :
    (table.add note).notes = (table.notes ++ [note].filter (· ≤ highestNote)).take capacity := by
  unfold NoteTable.add
  by_cases hnote : note ≤ highestNote
  case neg =>
    rw [if_neg (fun hadd => hnote hadd.1), List.filter_cons_of_neg (by simpa using hnote),
      List.filter_nil, List.append_nil, List.take_of_length_le h]
  case pos =>
    rw [List.filter_cons_of_pos (by simpa using hnote), List.filter_nil]
    split
    case isTrue hadd =>
      rw [List.take_of_length_le]
      simp only [List.length_append, List.length_singleton]
      omega
    case isFalse hfull =>
      have hlength : table.notes.length = capacity := by omega
      rw [← hlength, List.take_left]

theorem take_take_append (n : Nat) (notes more : List Nat) :
    (notes.take n ++ more).take n = (notes ++ more).take n := by
  rw [List.take_append, List.take_append, List.take_take, List.length_take, Nat.min_self]
  congr 2
  omega

/-- Notes are added one after the other while there is room. -/
theorem notes_foldl_add (h : table.notes.length ≤ capacity) (notes : List Nat) :
    (notes.foldl add table).notes =
      (table.notes ++ notes.filter (· ≤ highestNote)).take capacity := by
  induction notes generalizing table with
  | nil => rw [List.filter_nil, List.append_nil, List.foldl_nil, List.take_of_length_le h]
  | cons note notes ih =>
    have hadd := notes_add h note
    have hlength : (table.add note).notes.length ≤ capacity := by
      rw [hadd]
      exact List.length_take_le _ _
    have hfilter : (note :: notes).filter (· ≤ highestNote) =
        [note].filter (· ≤ highestNote) ++ notes.filter (· ≤ highestNote) := by
      rw [← List.filter_append]
      rfl
    rw [List.foldl_cons, ih hlength, hadd, take_take_append, List.append_assoc, ← hfilter]

/-- A table holds the playable notes of its scale, as far as there is room. -/
theorem notes_build (root : Key) (intervals : List Nat) (first last : Nat) :
    (build root intervals first last).notes =
      (scaleNotes root intervals (octaves first last)).take capacity := by
  have hbuild : build root intervals first last =
      ((octaves first last).flatMap fun octave =>
        intervals.map (rootNote root octave + ·)).foldl add {} := by
    rw [List.foldl_flatMap]
    unfold build
    congr 1
    funext table octave
    rw [List.foldl_map]
    rfl
  rw [hbuild, notes_foldl_add (Nat.zero_le _), List.nil_append]
  rfl

theorem playable_build (root : Key) (intervals : List Nat) (first last : Nat) :
    (build root intervals first last).Playable := by
  intro note hnote
  rw [notes_build] at hnote
  simpa using (List.mem_filter.mp (List.mem_of_mem_take hnote)).2

/-- No table holds lower notes: this is the C of octave 0. -/
def lowestNote : Nat := 12 * octaveOffset

theorem lowestNote_le_rootNote (root : Key) (octave : Nat) :
    lowestNote ≤ rootNote root octave := by
  unfold lowestNote rootNote
  omega

theorem lowestNote_le_of_mem_build {root : Key} {intervals : List Nat} {first last note : Nat}
    (h : note ∈ (build root intervals first last).notes) : lowestNote ≤ note := by
  rw [notes_build] at h
  obtain ⟨octave, -, hmap⟩ :=
    List.mem_flatMap.mp (List.mem_filter.mp (List.mem_of_mem_take h)).1
  obtain ⟨interval, -, rfl⟩ := List.mem_map.mp hmap
  exact Nat.le_trans (lowestNote_le_rootNote root octave) (Nat.le_add_right _ interval)

/-- No octave from the tenth on has playable notes. -/
theorem highestNote_lt_rootNote (root : Key) {octave : Nat} (h : 9 ≤ octave) :
    highestNote < rootNote root octave := by
  unfold highestNote rootNote octaveOffset
  omega

/-- Scales that are not too long fit in a table, whatever the octaves. -/
theorem length_scaleNotes_le (root : Key) {intervals : List Nat} (h : intervals.length ≤ 16)
    (first last : Nat) :
    (scaleNotes root intervals (octaves first last)).length ≤ capacity := by
  have hoctaves : ((octaves first last).filter (· < 9)).length ≤ 9 := by
    have hsubset : (octaves first last).filter (· < 9) ⊆ List.range 9 := by
      intro octave hoctave
      simpa using (List.mem_filter.mp hoctave).2
    have hnodup : ((octaves first last).filter (· < 9)).Nodup :=
      List.Nodup.filter _ List.nodup_range'
    exact Nat.le_trans (hnodup.subperm hsubset).length_le (Nat.le_of_eq List.length_range)
  have hlow (octaves : List Nat) :
      (scaleNotes root intervals octaves).length ≤
        (octaves.filter (· < 9)).length * intervals.length := by
    induction octaves with
    | nil => exact Nat.zero_le _
    | cons octave octaves ih =>
      rw [scaleNotes, List.flatMap_cons, List.filter_append, List.length_append, ← scaleNotes]
      by_cases hoctave : octave < 9
      · rw [List.filter_cons_of_pos (by simpa using hoctave), List.length_cons, Nat.succ_mul]
        have := List.length_filter_le (· ≤ highestNote) (intervals.map (rootNote root octave + ·))
        rw [List.length_map] at this
        omega
      · rw [List.filter_cons_of_neg (by simpa using hoctave), List.filter_eq_nil_iff.mpr]
        · rwa [List.length_nil, Nat.zero_add]
        intro note hnote
        obtain ⟨interval, -, rfl⟩ := List.mem_map.mp hnote
        have := highestNote_lt_rootNote root (Nat.not_lt.mp hoctave)
        simp only [decide_eq_true_eq]
        omega
  calc
    (scaleNotes root intervals (octaves first last)).length
      ≤ ((octaves first last).filter (· < 9)).length * intervals.length := hlow _
    _ ≤ 9 * 16 := Nat.mul_le_mul hoctaves h
    _ = capacity := rfl

theorem bounds?_eq_some_iff {lowest highest : Nat} :
    table.bounds? = some (lowest, highest) ↔
      table.notes.head? = some lowest ∧ table.notes.getLast? = some highest := by
  unfold bounds?
  constructor
  · intro h
    split at h
    case h_1 hhead hlast =>
      cases h
      exact ⟨hhead, hlast⟩
    case h_2 => cases h
  · rintro ⟨hhead, hlast⟩
    rw [hhead, hlast]

/-- The bounds are notes of the table. -/
theorem mem_of_bounds? {lowest highest : Nat} (h : table.bounds? = some (lowest, highest)) :
    lowest ∈ table.notes ∧ highest ∈ table.notes := by
  obtain ⟨hhead, hlast⟩ := bounds?_eq_some_iff.mp h
  exact ⟨List.mem_of_mem_head? hhead, List.mem_of_getLast? hlast⟩

/-- A reading chooses a note of the table. -/
theorem mem_of_quantize {candidate note : Nat} (h : table.quantize candidate = .ok note) :
    note ∈ table.notes := by
  unfold quantize at h
  split at h
  case h_1 => cases h
  case h_2 lowest highest hbounds =>
    obtain ⟨hlowest, hhighest⟩ := mem_of_bounds? hbounds
    have habove {above : Nat}
        (h : (table.notes.dropWhile (· < candidate)).head? = some above) :
        above ∈ table.notes :=
      (List.dropWhile_suffix _).subset (List.mem_of_mem_head? h)
    split at h
    case isTrue =>
      cases h
      exact hlowest
    split at h
    case h_1 below above hbelow hhead =>
      cases h
      unfold nearer
      split
      · exact habove hhead
      · exact (List.takeWhile_prefix _).subset (List.mem_of_getLast? hbelow)
    case h_2 above _ hhead =>
      cases h
      exact habove hhead
    case h_3 =>
      cases h
      exact hhighest

end MotionMidi.NoteTable
