import Mathlib.Data.List.Pairwise
import MotionMidi.Proofs.Pitch.NoteTable

/-!
# The notes of a scale

A table holds the playable notes of its scale and no others: they are found in sixteen-bit words,
without overflow, and the search only ends early where there is nothing left to be found. A scale
that spans at most an octave gives an ascending table.

## Main definitions

- `NoteTable.word?` — a number that fits a sixteen-bit word
- `NoteTable.search` — the search for notes, octave by octave, up to the one for which there is no
  room

Main statement: `NoteTable.build_holds_scale`.
-/

namespace MotionMidi.NoteTable

/-! ## Searching in words -/

/-- A number, if it fits a word of sixteen bits. -/
def word? (n : Nat) : Option Nat :=
  if n < 65536 then some n else none

theorem word?_of_lt {n : Nat} (h : n < 65536) : word? n = some n :=
  if_pos h

/-- The note of the root in an octave, each step of which has to fit a word. -/
def rootWord? (root : Key) (octave : Nat) : Option Nat := do
  let number ← word? (octave + octaveOffset)
  let semitones ← word? (12 * number)
  word? (root.pitchClass + semitones)

/-- The notes that were found, and whether the search ended because there was no room for one. -/
structure Found where
  notes : List Nat
  ended : Bool := false

/-- Searches an octave for notes, given the ones found before and the note of its root. Notes that
cannot be played are passed over. -/
def searchOctave (root : Nat) (notes : List Nat) : List Nat → Option Found
  | [] => some { notes }
  | interval :: intervals => do
    let note ← word? (root + interval)
    if highestNote < note then searchOctave root notes intervals
    else if notes.length < capacity then searchOctave root (notes ++ [note]) intervals
    else some { notes, ended := true }

/-- Searches octaves for notes, given the ones found before. -/
def search (root : Key) (intervals notes : List Nat) : List Nat → Option (List Nat)
  | [] => some notes
  | octave :: octaves => do
    let base ← rootWord? root octave
    let found ← searchOctave base notes intervals
    if found.ended then some found.notes else search root intervals found.notes octaves

/-- The highest number that is met while searching: the last interval of the last octave. -/
theorem rootNote_add_lt (root : Key) {octave interval : Nat} (hoctave : octave ≤ 255)
    (hinterval : interval ≤ 255) : rootNote root octave + interval < 65536 := by
  have hroot : root.pitchClass ≤ 11 := by
    cases root <;> decide
  unfold rootNote octaveOffset
  omega

theorem rootWord?_eq (root : Key) {octave : Nat} (h : octave ≤ 255) :
    rootWord? root octave = some (rootNote root octave) := by
  have hlt : rootNote root octave < 65536 := rootNote_add_lt root h (Nat.zero_le 255)
  rw [rootNote] at hlt
  rw [rootWord?, word?_of_lt (by omega)]
  change (word? (12 * (octave + octaveOffset))).bind _ = _
  rw [word?_of_lt (by omega)]
  exact word?_of_lt hlt

variable {table : NoteTable}

theorem add_of_full (h : capacity ≤ table.notes.length) (note : Nat) : table.add note = table :=
  if_neg fun hadd => absurd hadd.2 (Nat.not_lt.mpr h)

/-- Nothing is added to a table that is full. -/
theorem foldl_add_of_full (h : capacity ≤ table.notes.length) (notes : List Nat) :
    notes.foldl add table = table := by
  induction notes with
  | nil => rfl
  | cons note notes ih => rw [List.foldl_cons, add_of_full h, ih]

theorem addOctave_eq (root : Key) (intervals : List Nat) (table : NoteTable) (octave : Nat) :
    addOctave root intervals table octave =
      (intervals.map (rootNote root octave + ·)).foldl add table := by
  rw [List.foldl_map]
  rfl

theorem foldl_addOctave_of_full (h : capacity ≤ table.notes.length) (root : Key)
    (intervals octaves : List Nat) : octaves.foldl (addOctave root intervals) table = table := by
  induction octaves with
  | nil => rfl
  | cons octave octaves ih => rw [List.foldl_cons, addOctave_eq, foldl_add_of_full h, ih]

/-- The search finds what is added to the table, and ends early only when the table is full. -/
theorem searchOctave_eq {root : Nat} {intervals : List Nat}
    (h : ∀ interval ∈ intervals, root + interval < 65536) (table : NoteTable) :
    ∃ ended, searchOctave root table.notes intervals =
        some ⟨((intervals.map (root + ·)).foldl add table).notes, ended⟩ ∧
      (ended → capacity ≤ ((intervals.map (root + ·)).foldl add table).notes.length) := by
  induction intervals generalizing table with
  | nil => exact ⟨false, rfl, nofun⟩
  | cons interval intervals ih =>
    obtain ⟨hfirst, hothers⟩ := List.forall_mem_cons.mp h
    rw [searchOctave, word?_of_lt hfirst, List.map_cons, List.foldl_cons]
    change ∃ ended, (if highestNote < root + interval then _ else _) = _ ∧ _
    by_cases hhigh : highestNote < root + interval
    case pos =>
      have hadd : table.add (root + interval) = table :=
        if_neg fun hadd => absurd hadd.1 (Nat.not_le.mpr hhigh)
      rw [if_pos hhigh, hadd]
      exact ih hothers table
    case neg =>
      rw [if_neg hhigh]
      by_cases hroom : table.notes.length < capacity
      case pos =>
        have hadd : table.add (root + interval) = ⟨table.notes ++ [root + interval]⟩ :=
          if_pos ⟨Nat.not_lt.mp hhigh, hroom⟩
        rw [if_pos hroom, hadd]
        exact ih hothers ⟨table.notes ++ [root + interval]⟩
      case neg =>
        have hfull := Nat.not_lt.mp hroom
        rw [if_neg hroom, add_of_full hfull, foldl_add_of_full hfull]
        exact ⟨true, rfl, fun _ => hfull⟩

/-- All octaves are searched without overflow, or up to where the table is full. -/
theorem search_eq (root : Key) {intervals octaves : List Nat}
    (hintervals : ∀ interval ∈ intervals, interval ≤ 255)
    (hoctaves : ∀ octave ∈ octaves, octave ≤ 255) (table : NoteTable) :
    search root intervals table.notes octaves =
      some (octaves.foldl (addOctave root intervals) table).notes := by
  induction octaves generalizing table with
  | nil => rfl
  | cons octave octaves ih =>
    obtain ⟨hfirst, hothers⟩ := List.forall_mem_cons.mp hoctaves
    obtain ⟨ended, hsearch, hfull⟩ := searchOctave_eq
      (fun interval hinterval => rootNote_add_lt root hfirst (hintervals interval hinterval)) table
    rw [search, rootWord?_eq root hfirst, List.foldl_cons]
    change (searchOctave (rootNote root octave) table.notes intervals).bind _ = _
    rw [hsearch, ← addOctave_eq]
    rw [← addOctave_eq] at hfull
    cases ended with
    | false => exact ih hothers _
    | true =>
      rw [foldl_addOctave_of_full (hfull rfl)]
      rfl

/-! ## Order -/

/-- The notes of a scale ascend, from one octave to the next too, if the scale spans at most an
octave. -/
theorem pairwise_scaleNotes (root : Key) {intervals : List Nat}
    (hascending : intervals.Pairwise (· ≤ ·))
    (hspan : ∀ low ∈ intervals.head?, ∀ high ∈ intervals.getLast?, high ≤ low + 12)
    (first last : Nat) : (scaleNotes root intervals (octaves first last)).Pairwise (· ≤ ·) := by
  refine List.Pairwise.filter _ (List.pairwise_flatMap.mpr ⟨fun octave _ => ?_, ?_⟩)
  · exact hascending.map _ fun low high hle => Nat.add_le_add_left hle _
  · have hoctaves : (octaves first last).Pairwise (· < ·) := List.pairwise_lt_range' 1
    refine hoctaves.imp fun {octave later} hlt note hnote note' hnote' => ?_
    obtain ⟨interval, hinterval, rfl⟩ := List.mem_map.mp hnote
    obtain ⟨interval', hinterval', rfl⟩ := List.mem_map.mp hnote'
    have hne := List.ne_nil_of_mem hinterval
    have hlow := hascending.rel_head hinterval'
    have hhigh := hascending.rel_getLast hinterval
    have hwidth := hspan _ (List.head?_eq_some_head hne) _ (List.getLast?_eq_some_getLast hne)
    unfold rootNote
    omega

/-- A table holds the playable notes of its scale, octave by octave and within an octave in the
order of the intervals, as far as there is room. There is room for all notes of up to sixteen
intervals, whatever the octaves. The notes are found without overflow, and where the search ends
early none is missed. If the intervals ascend and span at most an octave, the table ascends. -/
theorem build_holds_scale (root : Key) (intervals : List Nat) (first last : Nat)
    (hintervals : ∀ interval ∈ intervals, interval ≤ 255) (hlast : last ≤ 255) :
    let table := build root intervals first last
    let octaves := List.range' first (last + 1 - first)
    let scale := (octaves.flatMap fun octave => intervals.map fun interval =>
      root.pitchClass + 12 * (octave + 2) + interval).filter (· ≤ 127)
    table.notes = scale.take 144 ∧
      (intervals.length ≤ 16 → scale.length ≤ 144 ∧ table.notes = scale) ∧
      search root intervals [] octaves = some table.notes ∧
      (intervals.Pairwise (· ≤ ·) →
        (∀ low ∈ intervals.head?, ∀ high ∈ intervals.getLast?, high ≤ low + 12) →
          table.Ascending) := by
  intro table octaves scale
  have hnotes : table.notes = scale.take 144 := notes_build root intervals first last
  have hoctaves : ∀ octave ∈ octaves, octave ≤ 255 := by
    intro octave hoctave
    have := List.mem_range'_1.mp hoctave
    omega
  refine ⟨hnotes, fun hlength => ?_, search_eq root hintervals hoctaves {},
    fun hascending hspan => ?_⟩
  · have hroom : scale.length ≤ 144 := length_scaleNotes_le root hlength first last
    exact ⟨hroom, hnotes.trans (List.take_of_length_le hroom)⟩
  · rw [Ascending, hnotes]
    exact (pairwise_scaleNotes root hascending hspan first last).take

/-- From octave 8 on, a scale on G has only the highest note of all. -/
theorem build_holds_scale_beyond_midi :
    let table := build .g [0, 5, 12] 8 255
    search .g [0, 5, 12] [] (List.range' 8 248) = some table.notes ∧ table.notes = [127] ∧
      table.Ascending := by
  intro table
  obtain ⟨-, -, hsearch, hascending⟩ :=
    build_holds_scale .g [0, 5, 12] 8 255 (by decide) (by decide)
  exact ⟨hsearch, by decide +kernel, hascending (by decide) (by simp)⟩

end MotionMidi.NoteTable
