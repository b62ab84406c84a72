import MotionMidi.Proofs.Config.Lines
import MotionMidi.Proofs.Performer.Storage

/-!
# Configurations sent over the serial line

A configuration that is sent in packets is put together again from its lines, and the performer
adopts what the text describes.

## Main definitions

- `Performer.receivePackets` — packets of bytes from the serial line, and the replies to the lines
  that they complete
- `Transmittable` — a text of which every line arrives, and only the last one ends a configuration

Main statement: `Performer.receivePackets_of_transmittable`.
-/

namespace MotionMidi

open Flash

/-! ## Lines and what they contain -/

theorem startsWith_iff {word line : String} : startsWith word line ↔ word.toList <+: line.toList :=
  List.isPrefixOf_iff_prefix

theorem occursIn_iff {word text : List Char} : occursIn word text ↔ word <:+: text := by
  induction text with
  | nil => simp [occursIn]
  | cons c text ih =>
    rw [occursIn, Bool.or_eq_true, ih, List.isPrefixOf_iff_prefix, List.infix_cons_iff]

theorem endsConfig_iff {line : String} : endsConfig line ↔ "END.".toList <:+: line.toList :=
  occursIn_iff

/-- A line behind others, with its line end. -/
def appendLine (text line : String) : String :=
  text ++ line ++ "\n"

theorem toList_foldl_appendLine (text : String) (lines : List String) :
    (lines.foldl appendLine text).toList =
      text.toList ++ (lines.map String.toList).flatMap (· ++ ['\n']) := by
  induction lines generalizing text with
  | nil => simp
  | cons line lines ih =>
    rw [List.foldl_cons, ih, appendLine]
    simp

theorem size_le_foldl_appendLine (text : String) (lines : List String) :
    text.utf8ByteSize ≤ (lines.foldl appendLine text).utf8ByteSize := by
  induction lines generalizing text with
  | nil => exact Nat.le_refl _
  | cons line lines ih =>
    refine Nat.le_trans ?_ (ih _)
    rw [appendLine, String.append_assoc, String.utf8ByteSize_append]
    exact Nat.le_add_right _ _

theorem intercalate_concat (pieces : List (List Char)) (last : List Char) :
    ['\n'].intercalate (pieces ++ [last]) = pieces.flatMap (· ++ ['\n']) ++ last := by
  induction pieces with
  | nil => simp
  | cons piece pieces ih =>
    rw [List.cons_append, List.intercalate_cons_of_ne_nil (by simp), ih]
    simp

/-- The last line comes behind the others, each with its line end. -/
theorem intercalate_lines (front : List String) (last : String) :
    "\n".intercalate (front ++ [last]) = front.foldl appendLine "" ++ last := by
  rw [← String.toList_inj, String.toList_intercalate, String.toList_append,
    toList_foldl_appendLine, List.map_append, List.map_singleton]
  exact intercalate_concat _ _

namespace Performer

variable {σ : Type} [Medium σ]

/-! ## Receiving -/

theorem receiveLines_append (performer : Performer) (front back : List String) (m : σ) :
    performer.receiveLines (front ++ back) m =
      let received := performer.receiveLines front m
      let more := received.1.1.receiveLines back received.2
      ((more.1.1, received.1.2 ++ more.1.2), more.2) := by
  induction front generalizing performer m with
  | nil => rfl
  | cons line front ih =>
    rw [List.cons_append, receiveLines, receiveLines, bind_run, bind_run, bind_run, ih]
    rfl

@[simp] theorem length_receiveLines (performer : Performer) (lines : List String) (m : σ) :
    (performer.receiveLines lines m).1.2.length = lines.length := by
  induction lines generalizing performer m with
  | nil => rfl
  | cons line lines ih =>
    rw [receiveLines, bind_run, bind_run]
    exact congrArg (· + 1) (ih _ _)

/-- Takes packets of bytes from the serial line, and tells the lines that they complete with the
reply to each. -/
def receivePackets (reader : LineReader) (performer : Performer) :
    List (List UInt8) → StateM σ (Performer × List (String × Reply))
  | [] => return (performer, [])
  | packet :: packets => do
    let (lines, reader) := reader.feed packet
    let (performer, replies) ← performer.receiveLines lines
    let (performer, more) ← receivePackets reader performer packets
    return (performer, lines.zip replies ++ more)

/-- It does not matter how the stream is cut into packets. -/
theorem receivePackets_eq (reader : LineReader) (performer : Performer)
    (packets : List (List UInt8)) (m : σ) :
    receivePackets reader performer packets m =
      let lines := (reader.feed packets.flatten).1
      let received := performer.receiveLines lines m
      ((received.1.1, lines.zip received.1.2), received.2) := by
  induction packets generalizing reader performer m with
  | nil => rfl
  | cons packet packets ih =>
    have hlength := length_receiveLines performer (reader.feed packet).1 m
    rw [receivePackets, List.flatten_cons, LineReader.feed_append]
    dsimp only
    rw [receiveLines_append, bind_run, bind_run, ih]
    dsimp only
    rw [List.zip_append hlength.symm]
    rfl

/-- Where a text is collected, or a line is neither of the commands, the line is collected. -/
theorem plain_of_not_command {performer : Performer} {line : String}
    (hcommand : performer.pending = "" →
      startsWith dumpCommand line = false ∧ startsWith hexdumpCommand line = false) :
    ¬(performer.pending.isEmpty &&
      (startsWith dumpCommand line || startsWith hexdumpCommand line)) = true := by
  rw [Bool.and_eq_true, String.isEmpty_iff]
  rintro ⟨hempty, hstarts⟩
  rw [(hcommand hempty).1, (hcommand hempty).2] at hstarts
  cases hstarts

/-- A line of a configuration that goes on is collected. -/
theorem receiveLine_of_collected {performer : Performer} {line : String}
    (hcommand : performer.pending = "" →
      startsWith dumpCommand line = false ∧ startsWith hexdumpCommand line = false)
    (hends : endsConfig line = false)
    (hfits : (appendLine performer.pending line).utf8ByteSize ≤ longestPending) (m : σ) :
    performer.receiveLine line m =
      ({ performer := { performer with pending := appendLine performer.pending line } }, m) := by
  have hshorter : (performer.pending ++ line).utf8ByteSize ≤ longestPending := by
    refine Nat.le_trans ?_ hfits
    rw [appendLine, String.utf8ByteSize_append (s := performer.pending ++ line)]
    exact Nat.le_add_right _ _
  rw [receiveLine_eq_collect (plain_of_not_command hcommand), collect,
    if_neg (Nat.not_lt.mpr hshorter), hends, if_neg Bool.false_ne_true, ← appendLine,
    if_neg (Nat.not_lt.mpr hfits)]
  rfl

/-- The replies to lines that are collected: nothing is shown, and the text grows. -/
def collected (performer : Performer) : List String → List Reply
  | [] => []
  | line :: lines =>
    let next := { performer with pending := appendLine performer.pending line }
    { performer := next } :: next.collected lines

theorem outcome_of_mem_collected {performer : Performer} {lines : List String} {reply : Reply}
    (h : reply ∈ performer.collected lines) : reply.outcome = none := by
  induction lines generalizing performer with
  | nil => cases h
  | cons line lines ih =>
    rcases List.mem_cons.mp h with rfl | hothers
    · rfl
    · exact ih hothers

@[simp] theorem length_collected (performer : Performer) (lines : List String) :
    (performer.collected lines).length = lines.length := by
  induction lines generalizing performer with
  | nil => rfl
  | cons line lines ih => exact congrArg (· + 1) (ih _)

/-- The lines of a configuration that goes on are collected one after the other. -/
theorem receiveLines_of_collected {performer : Performer} {lines : List String}
    (hcommand : performer.pending = "" → ∀ line ∈ lines.head?,
      startsWith dumpCommand line = false ∧ startsWith hexdumpCommand line = false)
    (hends : ∀ line ∈ lines, endsConfig line = false)
    (hfits : (lines.foldl appendLine performer.pending).utf8ByteSize ≤ longestPending) (m : σ) :
    performer.receiveLines lines m =
      (({ performer with pending := lines.foldl appendLine performer.pending },
        performer.collected lines), m) := by
  induction lines generalizing performer with
  | nil => rfl
  | cons line lines ih =>
    rw [List.forall_mem_cons] at hends
    have hfirst : (appendLine performer.pending line).utf8ByteSize ≤ longestPending :=
      Nat.le_trans (size_le_foldl_appendLine _ lines) hfits
    have hreceive := receiveLine_of_collected (fun h => hcommand h line rfl) hends.1 hfirst m
    -- From now on something is collected, so no line is taken for a command.
    have hpending : appendLine performer.pending line ≠ "" := by
      rw [ne_eq, ← String.toList_inj]
      simp [appendLine]
    have hothers := @ih { performer with pending := appendLine performer.pending line }
      (fun h => absurd h hpending) hends.2 hfits
    rw [receiveLines, bind_run, hreceive, bind_run]
    dsimp only
    rw [hothers]
    rfl

/-- A line that ends a configuration completes the text, unless it makes it too long. -/
theorem completed?_of_endsConfig {performer : Performer} {line : String}
    (hcommand : performer.pending = "" →
      startsWith dumpCommand line = false ∧ startsWith hexdumpCommand line = false)
    (hends : endsConfig line)
    (hfits : (performer.pending ++ line).utf8ByteSize ≤ longestPending) :
    performer.completed? line = some (performer.pending ++ line) := by
  rw [completed?, if_neg (plain_of_not_command hcommand), if_neg (Nat.not_lt.mpr hfits),
    if_pos hends]

theorem reconfigure_outcome (performer : Performer) (text : String) (m : σ) :
    (performer.reconfigure text m).1.outcome.isSome ∧
      ((performer.reconfigure text m).1.outcome = some .updated ↔ (Config.parse text).isOk) := by
  unfold reconfigure
  cases Config.parse text with
  | ok parsed =>
    dsimp only
    rw [bind_run]
    generalize SaveSlot.attempt (SaveSlot.write text) m = written
    obtain ⟨result, m'⟩ := written
    cases result <;> exact ⟨rfl, iff_of_true rfl rfl⟩
  | error error =>
    dsimp only
    rw [bind_run]
    generalize Saved.lookup m = found
    obtain ⟨saved, m'⟩ := found
    have hsaved : some Outcome.revertedToSaved ≠ some Outcome.updated := by decide
    have hfactory : some Outcome.revertedToFactory ≠ some Outcome.updated := by decide
    cases saved with
    | usable parsed => exact ⟨rfl, iff_of_false hsaved Bool.false_ne_true⟩
    | _ => exact ⟨rfl, iff_of_false hfactory Bool.false_ne_true⟩

end Performer

/-- A text without NUL that ends with a line end. Every line fits the line reader, only the last one
ends a configuration, the first one is no command, and all of them fit the save slot. -/
structure Transmittable (text : String) : Prop where
  nul : '\x00' ∉ text.toList
  ends : ∃ c, text.toList.getLast? = some c ∧ isLineEnd c
  short : ∀ line ∈ linesOf text, line.utf8ByteSize ≤ 1024
  terminated : ∃ front last, linesOf text = front ++ [last] ∧
    (∀ line ∈ front, ¬"END.".toList <:+: line.toList) ∧ "END.".toList <:+: last.toList
  command : ∀ line ∈ (linesOf text).head?,
    ¬"dump".toList <+: line.toList ∧ ¬"hdmp".toList <+: line.toList
  fits : ("\n".intercalate (linesOf text)).utf8ByteSize ≤ 4096

namespace Performer

variable {σ : Type} [Medium σ]

/-- However the bytes of a text are cut into packets, its last line has the performer reconfigured,
with all its lines. -/
theorem receiveLines_of_transmittable {text : String} (h : Transmittable text)
    {performer : Performer} (hpending : performer.pending = "") (m : σ) :
    ∃ front last earlier reply m', linesOf text = front ++ [last] ∧
      earlier.length = front.length ∧ (∀ r ∈ earlier, r.outcome = none) ∧
      performer.reconfigure ("\n".intercalate (linesOf text)) m = (reply, m') ∧
      performer.receiveLines (linesOf text) m = ((reply.performer, earlier ++ [reply]), m') := by
  obtain ⟨front, last, hlines, hfront, hlast⟩ := h.terminated
  have hfits := h.fits
  rw [hlines, intercalate_lines, String.utf8ByteSize_append] at hfits
  have hcommand : ∀ line ∈ (linesOf text).head?,
      startsWith dumpCommand line = false ∧ startsWith hexdumpCommand line = false := by
    intro line hline
    obtain ⟨hdump, hhexdump⟩ := h.command line hline
    rw [← Bool.not_eq_true, ← Bool.not_eq_true, startsWith_iff, startsWith_iff]
    exact ⟨hdump, hhexdump⟩
  have hearlier := @receiveLines_of_collected σ _ performer front
    (fun _ line hline => hcommand line (by rw [hlines, List.head?_append, hline]; rfl))
    (fun line hline => Bool.eq_false_iff.mpr fun h => hfront line hline (endsConfig_iff.mp h))
    (by rw [hpending]; exact Nat.le_trans (Nat.le_add_right _ _) hfits) m
  rw [hpending] at hearlier
  -- The last line completes the text.
  have hcompleted : ({ performer with pending := front.foldl appendLine "" } : Performer).completed?
      last = some ("\n".intercalate (linesOf text)) := by
    rw [completed?_of_endsConfig (fun hempty => ?_) (endsConfig_iff.mpr hlast), hlines,
      intercalate_lines]
    · rw [String.utf8ByteSize_append]
      exact hfits
    · cases front with
      | nil => exact hcommand last (by rw [hlines]; rfl)
      | cons line front =>
        rw [← String.toList_inj, toList_foldl_appendLine] at hempty
        simp at hempty
  have hreceive := congrFun (receiveLine_of_completed hcompleted : _ = (_ : StateM σ Reply)) m
  have hsame : ({ performer with pending := "" } : Performer) = performer := by
    rw [← hpending]
  rw [hsame] at hreceive
  refine ⟨front, last, performer.collected front, _, _, hlines, length_collected performer front,
    fun reply hreply => outcome_of_mem_collected hreply, rfl, ?_⟩
  rw [hlines, receiveLines_append, hearlier]
  dsimp only
  rw [receiveLines, bind_run, hreceive, hlines]
  rfl

/-- A text that is sent over the serial line, cut into packets anywhere, is adopted as if it were
read as it is. -/
theorem receivePackets_of_transmittable {text : String} (h : Transmittable text)
    {performer : Performer} (hpending : performer.pending = "") {packets : List (List UInt8)}
    (hpackets : packets.flatten = Utf8.encode text) (m : σ) :
    ∃ front last earlier reply m', linesOf text = front ++ [last] ∧
      receivePackets {} performer packets m =
        ((reply.performer, front.zip earlier ++ [(last, reply)]), m') ∧
      earlier.length = front.length ∧ (∀ r ∈ earlier, r.outcome = none) ∧
      performer.reconfigure ("\n".intercalate (linesOf text)) m = (reply, m') ∧
      reply.outcome.isSome ∧ (reply.outcome = some .updated ↔ (Config.parse text).isOk) ∧
      (∀ parsed, Config.parse text = .ok parsed → reply.performer.config = parsed.config ∧
        m' = stateAfter (SaveSlot.write ("\n".intercalate (linesOf text))) m) ∧
      reply.performer.pending = "" := by
  obtain ⟨front, last, earlier, reply, m', hlines, hlength, hnone, hreconfigure, hreceive⟩ :=
    receiveLines_of_transmittable h hpending m
  have hfeed : ((({} : LineReader)).feed (Utf8.encode text)).1 = linesOf text :=
    LineReader.feed_encode h.nul h.ends h.short
  have hsame := Config.parse_linesOf text
  obtain ⟨hsome, hupdated⟩ := reconfigure_outcome performer ("\n".intercalate (linesOf text)) m
  have hempty := pending_reconfigure performer ("\n".intercalate (linesOf text)) m
  rw [hreconfigure] at hsome hupdated hempty
  refine ⟨front, last, earlier, reply, m', hlines, ?_, hlength, hnone, hreconfigure, hsome, ?_, ?_,
    ?_⟩
  · rw [receivePackets_eq, hpackets, hfeed]
    dsimp only
    rw [hreceive, hlines, List.zip_append hlength.symm]
    rfl
  · rw [hupdated]
    generalize Config.parse ("\n".intercalate (linesOf text)) = joined at hsame
    generalize Config.parse text = direct at hsame
    cases joined <;> cases direct <;> first | rfl | cases hsame
  · intro parsed hparse
    rw [hparse] at hsame
    cases hjoined : Config.parse ("\n".intercalate (linesOf text)) with
    | error error =>
      rw [hjoined] at hsame
      cases hsame
    | ok parsed' =>
      rw [hjoined] at hsame
      obtain ⟨hconfig, hmedium⟩ := reconfigure_of_parsed hjoined performer m
      rw [hreconfigure] at hconfig hmedium
      rw [SaveSlot.snd_attempt] at hmedium
      exact ⟨hconfig.trans (Option.some.inj hsame), hmedium⟩
  · rw [hempty, hpending]

/-- A text with a comment and an empty line, cut within a character. -/
theorem receivePackets_cut_in_character :
    let text := "CHAN 3 # é\r\n\nEND.\r"
    let packets := [(Utf8.encode text).take 10, (Utf8.encode text).drop 10]
    let region := Region.erased ⟨4096, 256, 4096⟩
    Transmittable text ∧ packets.flatten = Utf8.encode text ∧
      ∃ earlier reply region', receivePackets {} {} packets region =
          ((reply.performer, [("CHAN 3 # é", earlier), ("END.", reply)]), region') ∧
        earlier.outcome = none ∧ reply.outcome = some .updated ∧
        reply.performer.config.channel = 3 := by
  intro text packets region
  have hlines : linesOf text = ["CHAN 3 # é", "END."] := by
    decide +kernel
  have htransmittable : Transmittable text := {
    nul := by decide +kernel
    ends := ⟨'\r', by decide +kernel, rfl⟩
    short := by
      rw [hlines]
      decide +kernel
    terminated := ⟨["CHAN 3 # é"], "END.", hlines, by decide +kernel, by decide +kernel⟩
    command := by
      rw [hlines]
      rintro _ ⟨⟩
      decide +kernel
    fits := by
      rw [hlines]
      decide +kernel }
  have hpackets : packets.flatten = Utf8.encode text := by
    decide +kernel
  obtain ⟨front, last, earlier, reply, region', hsplit, hreceive, hlength, hnone, -, -, hupdated,
    hconfig, -⟩ := receivePackets_of_transmittable htransmittable
      (show ({} : Performer).pending = "" from rfl) hpackets region
  obtain ⟨hfront, hlast⟩ : front = ["CHAN 3 # é"] ∧ [last] = ["END."] := by
    rw [hlines] at hsplit
    exact List.append_inj' hsplit.symm rfl
  rw [hfront, List.length_singleton, List.length_eq_one_iff] at hlength
  obtain ⟨first, rfl⟩ := hlength
  rw [hfront, List.cons.inj hlast |>.1] at hreceive
  have hparse : (Config.parse text).map (·.config.channel) = .ok 3 := by
    decide +kernel
  refine ⟨htransmittable, hpackets, first, reply, region', hreceive,
    hnone first (List.mem_singleton_self first), ?_⟩
  match htext : Config.parse text with
  | .error error =>
    rw [htext] at hparse
    cases hparse
  | .ok parsed =>
    rw [htext] at hparse hupdated
    refine ⟨hupdated.mpr rfl, ?_⟩
    rw [(hconfig parsed htext).1]
    exact Except.ok.inj hparse

end Performer

end MotionMidi
