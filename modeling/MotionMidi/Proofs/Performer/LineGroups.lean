import Mathlib.Algebra.Order.Ring.Nat
import MotionMidi.Proofs.Performer.FaultFlag
import MotionMidi.Proofs.Performer.Transmission

/-!
# Lines in groups

Whatever lines come in, they fall into groups of lines in a row: single commands, the lines of one
text that is handed over, and the lines of one that grew too long. Every line is in one group only,
so no text loses a line or takes one from another.

## Main definitions

- `textSize` — the bytes of lines that are collected, with their line ends
- `Collecting` — lines of a text that is still to be completed
- `LineGroup`, `Fate` — lines in a row, and what becomes of them
- `Splits` — lines are taken apart into groups, and those that are still being collected
- `LineGroup.receive`, `Performer.receiveGroups` — what comes of groups

Main statement: `receiveLines_by_groups`.
-/

namespace MotionMidi

open Flash Performer

/-! ## Groups -/

/-- The line ends a configuration. -/
def Closes (line : String) : Prop :=
  "END.".toList <:+: line.toList

/-- The line has something shown, unless a text is being collected. -/
def Asks (line : String) : Prop :=
  "dump".toList <+: line.toList ∨ "hdmp".toList <+: line.toList

instance : DecidablePred Closes := fun line =>
  inferInstanceAs (Decidable ("END.".toList <:+: line.toList))

instance : DecidablePred Asks := fun _ =>
  inferInstanceAs (Decidable (_ ∨ _))

/-- The bytes of a line, with its line end unless it ends a configuration. -/
def lineSize (line : String) : Nat :=
  line.utf8ByteSize + if Closes line then 0 else 1

/-- The bytes of lines that make up a text. -/
def textSize (lines : List String) : Nat :=
  (lines.map lineSize).sum

/-- A line is added to the ones in front of it. Where there are none, it must not be a command. -/
def Continues (front : List String) (line : String) : Prop :=
  front = [] → ¬Asks line

instance (front : List String) (line : String) : Decidable (Continues front line) :=
  inferInstanceAs (Decidable (_ → _))

/-- Lines of a text that is still to be completed. -/
structure Collecting (lines : List String) : Prop where
  plain : ∀ line ∈ lines.head?, ¬Asks line
  goesOn : ∀ line ∈ lines, ¬Closes line
  fits : textSize lines ≤ 4096

/-- What becomes of lines in a row. -/
inductive Fate where
  /-- A command is answered. -/
  | answered
  /-- The text is handed over. -/
  | completed
  /-- The text is dropped. -/
  | discarded
  deriving DecidableEq, Repr

/-- What a line decides about the ones in front of it: a command is answered where there are none,
a text is handed over with the line that ends it, and dropped with the one that does not fit. -/
def Fate.Befits (front : List String) (last : String) : Fate → Prop
  | answered => front = [] ∧ Asks last
  | completed => Continues front last ∧ Closes last ∧ textSize (front ++ [last]) ≤ 4096
  | discarded => Continues front last ∧ 4096 < textSize (front ++ [last])

/-- Lines in a row, and what becomes of them. -/
structure LineGroup where
  front : List String
  last : String
  fate : Fate
  deriving DecidableEq, Repr

namespace LineGroup

def lines (group : LineGroup) : List String :=
  group.front ++ [group.last]

/-- Nothing is decided in front of the last line, and that line decides what becomes of the
group. -/
structure Formed (group : LineGroup) : Prop where
  collecting : Collecting group.front
  befits : group.fate.Befits group.front group.last

end LineGroup

/-- Lines are taken apart into groups, and the lines that are still being collected. -/
structure Splits (lines : List String) (groups : List LineGroup) (rest : List String) : Prop where
  lines_eq : lines = groups.flatMap LineGroup.lines ++ rest
  formed : ∀ group ∈ groups, group.Formed
  collecting : Collecting rest

section Splitting

variable {lines front rest : List String} {line : String} {groups : List LineGroup}

@[simp] theorem textSize_append (front back : List String) :
    textSize (front ++ back) = textSize front + textSize back := by
  rw [textSize, List.map_append, List.sum_append]
  rfl

/-- A line decides something, or it is one more line of the text. -/
theorem exists_befits (front : List String) (line : String) :
    (∃ fate : Fate, fate.Befits front line) ∨
      Continues front line ∧ ¬Closes line ∧ textSize (front ++ [line]) ≤ 4096 := by
  by_cases hcommand : front = [] ∧ Asks line
  case pos => exact .inl ⟨.answered, hcommand⟩
  case neg =>
    have hcontinues : Continues front line := fun hempty hasks => hcommand ⟨hempty, hasks⟩
    by_cases hlong : 4096 < textSize (front ++ [line])
    case pos => exact .inl ⟨.discarded, hcontinues, hlong⟩
    case neg =>
      have hfits := Nat.not_lt.mp hlong
      by_cases hcloses : Closes line
      · exact .inl ⟨.completed, hcontinues, hcloses, hfits⟩
      · exact .inr ⟨hcontinues, hcloses, hfits⟩

namespace Collecting

theorem nil : Collecting [] :=
  ⟨nofun, nofun, Nat.zero_le _⟩

theorem concat (h : Collecting front) (hcontinues : Continues front line) (hopen : ¬Closes line)
    (hfits : textSize (front ++ [line]) ≤ 4096) : Collecting (front ++ [line]) := by
  refine ⟨fun first hfirst => ?_, ?_, hfits⟩
  · cases front with
    | nil =>
      cases hfirst
      exact hcontinues rfl
    | cons other front => exact h.plain first hfirst
  · rw [List.forall_mem_append, List.forall_mem_singleton]
    exact ⟨h.goesOn, hopen⟩

/-- The first lines of a text that is being collected are being collected too. -/
theorem of_append {back : List String} (h : Collecting (front ++ back)) : Collecting front := by
  refine ⟨fun first hfirst => ?_, fun line hline => ?_, ?_⟩
  · refine h.plain first ?_
    rw [List.head?_append, Option.mem_def.mp hfirst]
    rfl
  · exact h.goesOn line (List.mem_append_left _ hline)
  · exact Nat.le_trans (textSize_append front back ▸ Nat.le_add_right _ _) h.fits

end Collecting

/-- A line decides one thing only. -/
theorem Fate.Befits.unique {fate other : Fate} (h : fate.Befits front line)
    (hother : other.Befits front line) : fate = other := by
  have hplain : Continues front line → ¬(front = [] ∧ Asks line) :=
    fun hcontinues hcommand => hcontinues hcommand.1 hcommand.2
  cases fate with
  | answered =>
    cases other with
    | answered => rfl
    | completed => exact absurd h (hplain hother.1)
    | discarded => exact absurd h (hplain hother.1)
  | completed =>
    cases other with
    | answered => exact absurd hother (hplain h.1)
    | completed => rfl
    | discarded => exact absurd h.2.2 (Nat.not_le.mpr hother.2)
  | discarded =>
    cases other with
    | answered => exact absurd hother (hplain h.1)
    | completed => exact absurd hother.2.2 (Nat.not_le.mpr h.2)
    | discarded => rfl

/-- A line that decides something is not collected. -/
theorem Fate.Befits.not_collecting {fate : Fate} (h : fate.Befits front line) :
    ¬Collecting (front ++ [line]) := by
  intro hcollecting
  cases fate with
  | answered =>
    obtain ⟨rfl, hasks⟩ := h
    exact hcollecting.plain line rfl hasks
  | completed =>
    exact hcollecting.goesOn line (List.mem_append_right _ (List.mem_singleton_self line)) h.2.1
  | discarded => exact Nat.not_lt.mpr hcollecting.fits h.2

namespace LineGroup

variable {group other : LineGroup} {back : List String}

/-- No group is the start of lines that are being collected. -/
theorem Formed.not_collecting (h : group.Formed) : ¬Collecting (group.lines ++ back) :=
  fun hcollecting => h.befits.not_collecting hcollecting.of_append

/-- The lines of a group are not the start of another group, so they tell what becomes of them. -/
theorem Formed.eq_of_append (h : group.Formed) (hother : other.Formed)
    (hlines : other.lines = group.lines ++ back) : group = other := by
  rcases List.eq_nil_or_concat back with rfl | ⟨more, line, rfl⟩
  · rw [List.append_nil] at hlines
    obtain ⟨hfront, hlast⟩ := List.append_inj' hlines rfl
    obtain ⟨front, last, fate⟩ := group
    obtain ⟨front', last', fate'⟩ := other
    cases hfront
    cases hlast
    have hfate : fate = fate' := h.befits.unique hother.befits
    rw [hfate]
  · rw [List.concat_eq_append, ← List.append_assoc] at hlines
    have hfront := (List.append_inj' hlines rfl).1
    have hcollecting := hother.collecting
    rw [hfront] at hcollecting
    exact absurd hcollecting h.not_collecting

end LineGroup

namespace Splits

/-- One more line decides what becomes of the ones that are being collected, or it is collected with
them. -/
theorem concat (h : Splits lines groups rest) (line : String) :
    ∃ groups' rest', Splits (lines ++ [line]) groups' rest' := by
  rcases exists_befits rest line with ⟨fate, hbefits⟩ | ⟨hcontinues, hopen, hfits⟩
  · refine ⟨groups ++ [⟨rest, line, fate⟩], [], ?_, ?_, .nil⟩
    · rw [List.flatMap_append, List.flatMap_singleton, LineGroup.lines, List.append_nil,
        h.lines_eq, List.append_assoc]
    · rw [List.forall_mem_append, List.forall_mem_singleton]
      exact ⟨h.formed, h.collecting, hbefits⟩
  · refine ⟨groups, rest ++ [line], ?_, h.formed, h.collecting.concat hcontinues hopen hfits⟩
    rw [h.lines_eq, List.append_assoc]

theorem exists_of_lines (lines : List String) : ∃ groups rest, Splits lines groups rest := by
  induction lines using List.reverseRecOn with
  | nil => exact ⟨[], [], rfl, nofun, .nil⟩
  | append_singleton lines line ih =>
    obtain ⟨groups, rest, h⟩ := ih
    exact h.concat line

/-- There is only one way to take lines apart. -/
theorem unique {groups' : List LineGroup} {rest' : List String} (h : Splits lines groups rest)
    (h' : Splits lines groups' rest') : groups' = groups ∧ rest' = rest := by
  induction groups generalizing lines groups' with
  | nil =>
    cases groups' with
    | nil => exact ⟨rfl, h'.lines_eq.symm.trans h.lines_eq⟩
    | cons other groups' =>
      have hformed := h'.formed other (List.mem_cons_self ..)
      have hcollecting := h.collecting
      rw [← List.nil_append rest, ← List.flatMap_nil, ← h.lines_eq, h'.lines_eq, List.flatMap_cons,
        List.append_assoc] at hcollecting
      exact absurd hcollecting hformed.not_collecting
  | cons group groups ih =>
    have hformed := h.formed group (List.mem_cons_self ..)
    cases groups' with
    | nil =>
      have hcollecting := h'.collecting
      rw [← List.nil_append rest', ← List.flatMap_nil, ← h'.lines_eq, h.lines_eq,
        List.flatMap_cons, List.append_assoc] at hcollecting
      exact absurd hcollecting hformed.not_collecting
    | cons other groups' =>
      have hformed' := h'.formed other (List.mem_cons_self ..)
      have hlines := h.lines_eq.symm.trans h'.lines_eq
      rw [List.flatMap_cons, List.flatMap_cons, List.append_assoc, List.append_assoc] at hlines
      obtain rfl : group = other := by
        rcases List.append_eq_append_iff.mp hlines with ⟨back, hother, -⟩ | ⟨back, hgroup, -⟩
        · exact hformed.eq_of_append hformed' hother
        · exact (hformed'.eq_of_append hformed hgroup).symm
      have hothers := List.append_cancel_left hlines
      obtain ⟨rfl, rfl⟩ := ih
        ⟨rfl, fun other hother => h.formed other (List.mem_cons_of_mem _ hother), h.collecting⟩
        ⟨hothers, fun other hother => h'.formed other (List.mem_cons_of_mem _ hother),
          h'.collecting⟩
      exact ⟨rfl, rfl⟩

end Splits

end Splitting

/-! ## What comes of groups -/

variable {σ : Type} [Medium σ]

/-- What comes of a group when nothing is being collected: something is shown, the performer is
reconfigured with the lines as they were put together, or the fault flag is raised. Nothing else
comes of the lines in front of the last one. -/
def LineGroup.receive (group : LineGroup) (performer : Performer) :
    StateM σ (Performer × List Reply) :=
  match group.fate with
  | .answered => do
    let shown ← answerTo group.last
    return (performer, [{ performer, shown }])
  | .completed => do
    let reply ← performer.reconfigure ("\n".intercalate group.lines)
    return (reply.performer, performer.collected group.front ++ [reply])
  | .discarded => do
    let reply : Reply := { performer := performer.raiseFault }
    return (reply.performer, performer.collected group.front ++ [reply])

/-- What comes of groups, one after the other. -/
def Performer.receiveGroups (performer : Performer) :
    List LineGroup → StateM σ (Performer × List Reply)
  | [] => return (performer, [])
  | group :: groups => do
    let (performer, replies) ← group.receive performer
    let (performer, more) ← performer.receiveGroups groups
    return (performer, replies ++ more)

section Receiving

variable {performer : Performer} {front lines rest : List String} {line : String}

theorem asks_iff : Asks line ↔ startsWith dumpCommand line ∨ startsWith hexdumpCommand line := by
  rw [startsWith_iff, startsWith_iff]
  rfl

theorem not_command_of_not_asks (h : ¬Asks line) :
    startsWith dumpCommand line = false ∧ startsWith hexdumpCommand line = false := by
  rwa [asks_iff, not_or, Bool.not_eq_true, Bool.not_eq_true] at h

theorem closes_iff : Closes line ↔ endsConfig line :=
  endsConfig_iff.symm

/-- Lines that are put together have the sizes that are counted for them. -/
theorem size_foldl_appendLine (h : ∀ line ∈ lines, ¬Closes line) (text : String) :
    (lines.foldl appendLine text).utf8ByteSize = text.utf8ByteSize + textSize lines := by
  induction lines generalizing text with
  | nil => rfl
  | cons line lines ih =>
    obtain ⟨hline, hlines⟩ := List.forall_mem_cons.mp h
    have hsize : (appendLine text line).utf8ByteSize = text.utf8ByteSize + lineSize line := by
      rw [appendLine, String.utf8ByteSize_append, String.utf8ByteSize_append, lineSize,
        if_neg hline, Nat.add_assoc]
      rfl
    rw [List.foldl_cons, ih hlines, hsize, Nat.add_assoc]
    rfl

theorem eq_nil_of_foldl_appendLine (h : lines.foldl appendLine "" = "") : lines = [] := by
  cases lines with
  | nil => rfl
  | cons line lines =>
    rw [← String.toList_inj, toList_foldl_appendLine] at h
    simp at h

namespace Collecting

theorem size_pending (h : Collecting lines) :
    (lines.foldl appendLine "").utf8ByteSize = textSize lines := by
  rw [size_foldl_appendLine h.goesOn]
  exact Nat.zero_add _

theorem receiveLines (h : Collecting lines) (hpending : performer.pending = "") (m : σ) :
    performer.receiveLines lines m =
      (({ performer with pending := lines.foldl appendLine "" },
        performer.collected lines), m) := by
  rw [← hpending]
  apply receiveLines_of_collected
  · exact fun _ line hline => not_command_of_not_asks (h.plain line hline)
  · intro line hline
    rw [← Bool.not_eq_true, ← closes_iff]
    exact h.goesOn line hline
  · rw [hpending, h.size_pending]
    exact h.fits

/-- The line behind the ones that are being collected is the last one that is received. -/
theorem receiveLines_concat (h : Collecting front) (hpending : performer.pending = "")
    (last : String) (m : σ) :
    performer.receiveLines (front ++ [last]) m =
      let gathering := { performer with pending := front.foldl appendLine "" }
      let received := gathering.receiveLine last m
      ((received.1.performer, performer.collected front ++ [received.1]), received.2) := by
  rw [receiveLines_append, h.receiveLines hpending]
  rfl

end Collecting

/-- Nothing is being collected once a group was received. -/
@[simp] theorem LineGroup.pending_receive (group : LineGroup) (performer : Performer) (m : σ) :
    (group.receive performer m).1.1.pending = performer.pending := by
  obtain ⟨front, last, fate⟩ := group
  cases fate with
  | answered => rfl
  | completed => exact pending_reconfigure performer _ m
  | discarded => rfl

theorem receiveLine_of_overflows (h : performer.Overflows line) :
    (performer.receiveLine line : StateM σ Reply) =
      pure { performer := performer.discardPending } := by
  have hcompleted : performer.completed? line = none :=
    Option.eq_none_iff_forall_ne_some.mpr fun _ htext => not_overflows_of_completed htext h
  rcases receiveLine_of_not_completed (σ := σ) hcompleted with
    ⟨hroom, -⟩ | ⟨-, hreceive⟩ | ⟨hroom, -⟩
  · exact absurd h hroom
  · exact hreceive
  · exact absurd h hroom

/-- The lines of a group are received as a whole. -/
theorem LineGroup.Formed.receiveLines {group : LineGroup} (h : group.Formed)
    (hpending : performer.pending = "") (m : σ) :
    performer.receiveLines group.lines m = group.receive performer m := by
  obtain ⟨front, last, fate⟩ := group
  obtain ⟨hcollecting, hbefits⟩ := h
  dsimp only at hcollecting hbefits
  have hempty : { performer with pending := "" } = performer := by
    rw [← hpending]
  have hplain (hcontinues : Continues front last) (hnone : front.foldl appendLine "" = "") :
      startsWith dumpCommand last = false ∧ startsWith hexdumpCommand last = false :=
    not_command_of_not_asks (hcontinues (eq_nil_of_foldl_appendLine hnone))
  have hsize : textSize (front ++ [last]) =
      (front.foldl appendLine "" ++ last).utf8ByteSize + if Closes last then 0 else 1 := by
    rw [textSize_append, String.utf8ByteSize_append, hcollecting.size_pending, Nat.add_assoc]
    rfl
  rw [lines, hcollecting.receiveLines_concat hpending]
  dsimp only
  cases fate with
  | answered =>
    obtain ⟨rfl, hasks⟩ := hbefits
    rw [List.foldl_nil, hempty, receiveLine_of_command hpending (asks_iff.mp hasks)]
    rfl
  | completed =>
    obtain ⟨hcontinues, hcloses, hfits⟩ := hbefits
    rw [hsize, if_pos hcloses] at hfits
    have hcompleted :
        ({ performer with pending := front.foldl appendLine "" } : Performer).completed? last =
          some ("\n".intercalate (front ++ [last])) := by
      rw [intercalate_lines]
      exact completed?_of_endsConfig (hplain hcontinues) (closes_iff.mp hcloses) hfits
    rw [receiveLine_of_completed hcompleted]
    dsimp only
    rw [hempty]
    rfl
  | discarded =>
    obtain ⟨hcontinues, hlong⟩ := hbefits
    rw [hsize] at hlong
    have hover : ({ performer with pending := front.foldl appendLine "" } : Performer).Overflows
        last := by
      refine ⟨fun hcommand => ?_, ?_⟩
      · have hnone := hplain hcontinues hcommand.1
        rw [hnone.1, hnone.2] at hcommand
        simp at hcommand
      · by_cases hcloses : Closes last
        · rw [if_pos hcloses] at hlong
          exact .inl hlong
        · rw [if_neg hcloses] at hlong
          refine .inr ⟨?_, ?_⟩
          · rwa [← Bool.not_eq_true, ← closes_iff]
          · rw [String.utf8ByteSize_append (t := "\n")]
            exact hlong
    rw [receiveLine_of_overflows hover, ← hempty]
    rfl

@[simp] theorem pending_receiveGroups (performer : Performer) (groups : List LineGroup) (m : σ) :
    (performer.receiveGroups groups m).1.1.pending = performer.pending := by
  induction groups generalizing performer m with
  | nil => rfl
  | cons group groups ih =>
    rw [Performer.receiveGroups, bind_run]
    exact (ih _ _).trans (group.pending_receive performer m)

theorem receiveLines_groups {groups : List LineGroup} (h : ∀ group ∈ groups, group.Formed)
    (hpending : performer.pending = "") (m : σ) :
    performer.receiveLines (groups.flatMap LineGroup.lines) m =
      performer.receiveGroups groups m := by
  induction groups generalizing performer m with
  | nil => rfl
  | cons group groups ih =>
    obtain ⟨hformed, hothers⟩ := List.forall_mem_cons.mp h
    have hpending' := (group.pending_receive performer m).trans hpending
    rw [List.flatMap_cons, receiveLines_append, hformed.receiveLines hpending]
    dsimp only
    rw [ih hothers hpending']
    rfl

/-- Lines are received group by group, and the rest of them is collected. -/
theorem Splits.receiveLines {groups : List LineGroup} (h : Splits lines groups rest)
    (hpending : performer.pending = "") (m : σ) :
    performer.receiveLines lines m =
      let received := performer.receiveGroups groups m
      let after := received.1.1
      (({ after with pending := rest.foldl appendLine "" }, received.1.2 ++ after.collected rest),
        received.2) := by
  have hafter := (pending_receiveGroups performer groups m).trans hpending
  rw [h.lines_eq, receiveLines_append, receiveLines_groups h.formed hpending]
  dsimp only
  rw [h.collecting.receiveLines hafter]

/-- The text that is being collected is never longer than it may be. -/
theorem size_pending_receiveLines (hpending : performer.pending = "") (lines : List String)
    (m : σ) : (performer.receiveLines lines m).1.1.pending.utf8ByteSize ≤ 4096 := by
  obtain ⟨groups, rest, h⟩ := Splits.exists_of_lines lines
  rw [h.receiveLines hpending]
  dsimp only
  rw [h.collecting.size_pending]
  exact h.collecting.fits

/-- A text is only complete where the lines of it that were collected say so. -/
theorem befits_of_completed {text : String} (h : Collecting rest)
    (hrest : performer.pending = rest.foldl appendLine "")
    (hcompleted : performer.completed? line = some text) : Fate.completed.Befits rest line := by
  obtain ⟨hcommand, hlength, hends, -⟩ := of_completed hcompleted
  have hcloses : Closes line := closes_iff.mpr hends
  rw [hrest] at hlength hcommand
  refine ⟨fun hempty hasks => ?_, hcloses, ?_⟩
  · rw [hempty] at hcommand
    exact hcommand (by simpa using asks_iff.mp hasks)
  · rw [textSize_append, ← h.size_pending, textSize, List.map_singleton, List.sum_singleton,
      lineSize, if_pos hcloses, Nat.add_zero, ← String.utf8ByteSize_append]
    exact Nat.not_lt.mp hlength

/-- Unless a line completes a text, only what is collected and the fault flag change. -/
theorem receiveLine_of_not_befits (h : Collecting rest)
    (hrest : performer.pending = rest.foldl appendLine "")
    (hbefits : ¬Fate.completed.Befits rest line) (m : Monitored Region) :
    (performer.receiveLine line m).1.outcome = none ∧
      (performer.receiveLine line m).1.performer.config = performer.config ∧
      Browses m (performer.receiveLine line m).2 := by
  have hcompleted : performer.completed? line = none :=
    Option.eq_none_iff_forall_ne_some.mpr fun _ htext =>
      hbefits (befits_of_completed h hrest htext)
  refine ⟨?_, ?_, browses_of_not_completed hcompleted m⟩
  · rcases receiveLine_of_not_completed (σ := Monitored Region) hcompleted with
      ⟨-, hreceive⟩ | ⟨-, hreceive⟩ | ⟨-, hreceive⟩
    all_goals
      rw [hreceive]
      rfl
  · rcases performer_of_not_completed hcompleted m with ⟨-, hline⟩ | ⟨-, pending, hline⟩
    all_goals exact (congrArg Performer.config hline).trans rfl

end Receiving

/-- Lines fall into groups in one way only, and they are received as these: a completed group is
handed over as it is, a group that grew too long is dropped as a whole, and the lines behind the
last group are still being collected. Along the way what is collected never gets too long, and
nothing but a line that completes a text changes the configuration or the saved text. -/
theorem receiveLines_by_groups {performer : Performer} (hpending : performer.pending = "")
    (lines : List String) (m : Monitored Region) :
    ∃ groups rest, Splits lines groups rest ∧
      (∀ groups' rest', Splits lines groups' rest' → groups' = groups ∧ rest' = rest) ∧
      (performer.receiveLines lines m =
        let received := performer.receiveGroups groups m
        let after := received.1.1
        (({ after with pending := rest.foldl appendLine "" },
          received.1.2 ++ after.collected rest), received.2)) ∧
      ∀ front line back, lines = front ++ line :: back →
        ∀ earlier collected, Splits front earlier collected →
          let before := performer.receiveLines front m
          let received := before.1.1.receiveLine line before.2
          received.1.performer.pending.utf8ByteSize ≤ 4096 ∧
            (¬Fate.completed.Befits collected line →
              received.1.outcome = none ∧ received.1.performer.config = before.1.1.config ∧
                Browses before.2 received.2) := by
  obtain ⟨groups, rest, hsplits⟩ := Splits.exists_of_lines lines
  refine ⟨groups, rest, hsplits, fun groups' rest' h => hsplits.unique h,
    hsplits.receiveLines hpending m, ?_⟩
  rintro front line back - earlier collected hfront before received
  have hreceived : (performer.receiveLines (front ++ [line]) m).1.1 = received.1.performer := by
    rw [receiveLines_append]
    rfl
  have hbefore : before.1.1.pending = collected.foldl appendLine "" := by
    rw [show before = _ from hfront.receiveLines hpending m]
  constructor
  · rw [← hreceived]
    exact size_pending_receiveLines hpending _ m
  · intro hbefits
    exact receiveLine_of_not_befits hfront.collecting hbefore hbefits before.2

/-- A command, a text that ends in a comment, one that is full when another line comes, and one that
goes on with what would be a command elsewhere. -/
theorem receiveLines_by_groups_full :
    let full := List.replicate 64 (String.ofList (List.replicate 63 'x'))
    let lines := ["dump"] ++ ["CHAN", "4 # END."] ++ full ++ ["", "BPM 90", "dump"]
    let m : Monitored Region := { medium := Region.erased ⟨32, 16, 64⟩ }
    Splits lines [⟨[], "dump", .answered⟩, ⟨["CHAN"], "4 # END.", .completed⟩,
        ⟨full, "", .discarded⟩] ["BPM 90", "dump"] ∧
      ∃ performer replies m',
        ({} : Performer).receiveLines lines m = ((performer, replies), m') ∧
          replies.map (·.outcome) =
            [none] ++ [none, some .updated] ++ List.replicate 65 none ++ [none, none] ∧
          performer.config.channel = 4 ∧ performer.fault ∧
          performer.pending = "BPM 90\ndump\n" := by
  intro full lines m
  have hsplits : Splits lines [⟨[], "dump", .answered⟩, ⟨["CHAN"], "4 # END.", .completed⟩,
      ⟨full, "", .discarded⟩] ["BPM 90", "dump"] := by
    refine ⟨rfl, ?_, ⟨by decide +kernel, by decide +kernel, by decide +kernel⟩⟩
    simp only [List.forall_mem_cons]
    refine ⟨⟨.nil, rfl, ?_⟩, ⟨⟨?_, ?_, ?_⟩, ?_, ?_, ?_⟩, ⟨⟨?_, ?_, ?_⟩, ?_, ?_⟩, nofun⟩
    all_goals decide +kernel
  obtain ⟨groups, rest, -, honly, hreceive, -⟩ :=
    receiveLines_by_groups (show ({} : Performer).pending = "" from rfl) lines m
  obtain ⟨rfl, rfl⟩ := honly _ _ hsplits
  refine ⟨hsplits, _, _, _, hreceive, ?_⟩
  decide +kernel

end MotionMidi
