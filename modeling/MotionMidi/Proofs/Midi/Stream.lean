import Mathlib.Data.List.Forall2
import MotionMidi.Midi.Message

/-!
# The byte stream

The messages of the instrument have three bytes each, and whoever reads their bytes one after the
other can tell what was sent.

## Main definitions

- `Midi.Voice` — the data of a message, as plain numbers
- `Midi.Voice.InRange`, `Midi.Voice.bytes` — the data fit into a message, and its bytes
- `Midi.Voice.read?`, `Midi.Voice.split?` — the data of one message, and of those that make up some
  bytes
- `Midi.Message.Carries` — the bytes of a message are those of given data
- `Midi.Framed` — a status byte with a channel, and two data bytes
- `Midi.stream` — the bytes of several messages

Main statements: `Midi.Voice.split?_eq_some_iff`, `Midi.split?_stream`, `Midi.eq_of_stream_eq`.
-/

namespace MotionMidi.Midi

/-- The data of a message that plays something, as plain numbers. -/
inductive Voice where
  | noteOff (channel note velocity : Nat)
  | noteOn (channel note velocity : Nat)
  | controlChange (channel controller value : Nat)
  | pitchBend (channel bend : Nat)
  deriving DecidableEq, Repr

/-- Some bytes are a status byte of one of four kinds, with the index of a channel, and two bytes
that are no status bytes. -/
def Framed (bytes : List Nat) : Prop :=
  ∃ kind ∈ [0x80, 0x90, 0xb0, 0xe0], ∃ channel ≤ 15, ∃ first < 0x80, ∃ second < 0x80,
    bytes = [kind + channel, first, second]

theorem atMost_val {bound n : Nat} (h : n ≤ bound) : (atMost bound n).val = n :=
  Nat.min_eq_left h

@[simp] theorem atMost_self {bound : Nat} (n : Fin (bound + 1)) : atMost bound n.val = n :=
  Fin.ext (Nat.min_eq_left (Nat.le_of_lt_succ n.isLt))

namespace Voice

/-- All data fit into a message. -/
def InRange : Voice → Prop
  | noteOff channel note velocity => channel ≤ 15 ∧ note ≤ 127 ∧ velocity ≤ 127
  | noteOn channel note velocity => channel ≤ 15 ∧ note ≤ 127 ∧ velocity ≤ 127
  | controlChange channel controller value => channel ≤ 15 ∧ controller ≤ 127 ∧ value ≤ 127
  | pitchBend channel bend => channel ≤ 15 ∧ bend ≤ 0x3fff

/-- The bytes on the wire; of a bend, the low seven bits come first. -/
def bytes : Voice → List Nat
  | noteOff channel note velocity => [0x80 + channel, note, velocity]
  | noteOn channel note velocity => [0x90 + channel, note, velocity]
  | controlChange channel controller value => [0xb0 + channel, controller, value]
  | pitchBend channel bend => [0xe0 + channel, bend % 128, bend / 128]

/-- The data of a message of some kind. -/
def ofParts? (kind channel first second : Nat) : Option Voice :=
  match kind with
  | 0x8 => some (noteOff channel first second)
  | 0x9 => some (noteOn channel first second)
  | 0xb => some (controlChange channel first second)
  | 0xe => some (pitchBend channel (first + 128 * second))
  | _ => none

/-- Reads the three bytes of a message. -/
def read? (status first second : Nat) : Option Voice :=
  if 0x80 ≤ first ∨ 0x80 ≤ second then none
  else ofParts? (status / 16) (status % 16) first second

/-- Reads messages of three bytes each. -/
def split? : List Nat → Option (List Voice)
  | [] => some []
  | status :: first :: second :: stream =>
    (read? status first second).bind fun voice => (split? stream).map (voice :: ·)
  | _ => none

variable {voice : Voice} {status first second : Nat}

/-- Data that fit into a message are made of a kind, a channel and two bytes. -/
theorem exists_parts (h : voice.InRange) :
    ∃ kind ∈ [0x8, 0x9, 0xb, 0xe], ∃ channel ≤ 15, ∃ first < 0x80, ∃ second < 0x80,
      voice.bytes = [16 * kind + channel, first, second] ∧
        ofParts? kind channel first second = some voice := by
  cases voice with
  | noteOff channel note velocity =>
    obtain ⟨hchannel, hnote, hvelocity⟩ := h
    exact ⟨0x8, by simp, channel, hchannel, note, by omega, velocity, by omega, rfl, rfl⟩
  | noteOn channel note velocity =>
    obtain ⟨hchannel, hnote, hvelocity⟩ := h
    exact ⟨0x9, by simp, channel, hchannel, note, by omega, velocity, by omega, rfl, rfl⟩
  | controlChange channel controller value =>
    obtain ⟨hchannel, hcontroller, hvalue⟩ := h
    exact ⟨0xb, by simp, channel, hchannel, controller, by omega, value, by omega, rfl, rfl⟩
  | pitchBend channel bend =>
    obtain ⟨hchannel, hbend⟩ := h
    have hwhole : bend % 128 + 128 * (bend / 128) = bend := by omega
    refine ⟨0xe, by simp, channel, hchannel, bend % 128, by omega, bend / 128, by omega, rfl, ?_⟩
    exact congrArg (some <| pitchBend channel ·) hwhole

theorem framed_bytes (h : voice.InRange) : Framed voice.bytes := by
  obtain ⟨kind, hkind, channel, hchannel, first, hfirst, second, hsecond, hbytes, -⟩ :=
    exists_parts h
  refine ⟨16 * kind, ?_, channel, hchannel, first, hfirst, second, hsecond, hbytes⟩
  simp only [List.mem_cons, List.not_mem_nil, or_false] at hkind ⊢
  omega

/-! ## Reading -/

/-- A status byte tells its kind and its channel. -/
theorem read?_status (kind : Nat) {channel : Nat} (hchannel : channel ≤ 15) (hfirst : first < 0x80)
    (hsecond : second < 0x80) :
    read? (16 * kind + channel) first second = ofParts? kind channel first second := by
  have hkind : (16 * kind + channel) / 16 = kind := by omega
  have hindex : (16 * kind + channel) % 16 = channel := by omega
  rw [read?, if_neg (by omega), hkind, hindex]

theorem read?_bytes (h : voice.InRange) (hbytes : [status, first, second] = voice.bytes) :
    read? status first second = some voice := by
  obtain ⟨kind, -, channel, hchannel, first', hfirst, second', hsecond, hparts, hvoice⟩ :=
    exists_parts h
  cases hbytes.trans hparts
  rw [read?_status kind hchannel hfirst hsecond, hvoice]

theorem bytes_of_read? (h : read? status first second = some voice) :
    voice.InRange ∧ [status, first, second] = voice.bytes := by
  rw [read?] at h
  split at h
  case isTrue => cases h
  case isFalse hdata =>
    -- One case for each kind of message.
    unfold ofParts? at h
    split at h
    case h_1 hkind =>
      cases h
      have hstatus : status = 0x80 + status % 16 := by omega
      exact ⟨⟨by omega, by omega, by omega⟩, by rw [bytes, ← hstatus]⟩
    case h_2 hkind =>
      cases h
      have hstatus : status = 0x90 + status % 16 := by omega
      exact ⟨⟨by omega, by omega, by omega⟩, by rw [bytes, ← hstatus]⟩
    case h_3 hkind =>
      cases h
      have hstatus : status = 0xb0 + status % 16 := by omega
      exact ⟨⟨by omega, by omega, by omega⟩, by rw [bytes, ← hstatus]⟩
    case h_4 hkind =>
      cases h
      have hstatus : status = 0xe0 + status % 16 := by omega
      have hlow : (first + 128 * second) % 128 = first := by omega
      have hhigh : (first + 128 * second) / 128 = second := by omega
      exact ⟨⟨by omega, by omega⟩, by rw [bytes, hlow, hhigh, ← hstatus]⟩
    case h_5 => cases h

/-- Bytes are split into messages in no more than one way. -/
theorem split?_eq_some_iff {stream : List Nat} {voices : List Voice} :
    split? stream = some voices ↔
      (∀ voice ∈ voices, voice.InRange) ∧ stream = voices.flatMap bytes := by
  constructor
  · intro h
    induction stream using split?.induct generalizing voices with
    | case1 =>
      cases h
      exact ⟨by simp, rfl⟩
    | case2 status first second stream ih =>
      rw [split?] at h
      obtain ⟨voice, hread, hmore⟩ := Option.bind_eq_some_iff.mp h
      obtain ⟨others, hothers, rfl⟩ := Option.map_eq_some_iff.mp hmore
      obtain ⟨hrange, hbytes⟩ := bytes_of_read? hread
      obtain ⟨hranges, rfl⟩ := ih hothers
      refine ⟨List.forall_mem_cons.mpr ⟨hrange, hranges⟩, ?_⟩
      rw [List.flatMap_cons, ← hbytes]
      rfl
    | case3 stream hnil hmessage =>
      rw [split?] at h
      · cases h
      · exact hnil
      · exact hmessage
  · rintro ⟨hranges, rfl⟩
    induction voices with
    | nil => rfl
    | cons voice voices ih =>
      obtain ⟨hrange, hranges⟩ := List.forall_mem_cons.mp hranges
      obtain ⟨kind, -, channel, -, first, -, second, -, hbytes⟩ := framed_bytes hrange
      rw [List.flatMap_cons, hbytes, List.cons_append, List.cons_append, List.cons_append,
        List.nil_append, split?, read?_bytes hrange hbytes.symm, ih hranges]
      rfl

end Voice

namespace Message

/-- The message has three bytes, and they are those of the given data. -/
def Carries (message : Message) (voice : Voice) : Prop :=
  ∃ bytes, message.encode? = some bytes ∧ bytes.map UInt8.toNat = voice.bytes

theorem Carries.bytes {message : Message} {voice : Voice} (h : message.Carries voice) :
    message.bytes.map UInt8.toNat = voice.bytes := by
  obtain ⟨bytes, hencode, hbytes⟩ := h
  rw [encode?] at hencode
  split at hencode
  · cases hencode
    exact hbytes
  · cases hencode

/-- A message carries no more than one set of data. -/
theorem Carries.voice_unique {message : Message} {voice other : Voice} (h : message.Carries voice)
    (hother : message.Carries other) (hvoice : voice.InRange) (hrange : other.InRange) :
    voice = other := by
  obtain ⟨kind, -, channel, -, first, -, second, -, hbytes⟩ := Voice.framed_bytes hvoice
  have hothers : [kind + channel, first, second] = other.bytes := by
    rw [← hbytes, ← h.bytes, hother.bytes]
  exact Option.some.inj ((Voice.read?_bytes hvoice hbytes.symm).symm.trans
    (Voice.read?_bytes hrange hothers))

/-- The message of some data. -/
def ofVoice : Voice → Message
  | .noteOff channel note velocity =>
    .noteOff (atMost 15 channel) (atMost 127 note) (atMost 127 velocity)
  | .noteOn channel note velocity =>
    .noteOn (atMost 15 channel) (atMost 127 note) (atMost 127 velocity)
  | .controlChange channel controller value =>
    .controlChange (atMost 15 channel) (atMost 127 controller) (atMost 127 value)
  | .pitchBend channel bend => .pitchBend (atMost 15 channel) (atMost highestBend bend)

theorem toNat_ofNat {n : Nat} (h : n < 256) : (UInt8.ofNat n).toNat = n :=
  UInt8.toNat_ofNat_of_lt' h

@[simp] theorem toNat_status {kind : Nat} (h : kind ≤ 15) (channel : Channel) :
    (status kind channel).toNat = 16 * kind + channel.val :=
  toNat_ofNat (by omega)

@[simp] theorem toNat_dataByte (data : Data) : (dataByte data).toNat = data.val :=
  toNat_ofNat (by omega)

/-- The bytes of a message with two data bytes. -/
theorem toNat_framed {kind : Nat} (h : kind ≤ 15) (channel : Channel) (first second : Data) :
    [status kind channel, dataByte first, dataByte second].map UInt8.toNat =
      [16 * kind + channel.val, first.val, second.val] := by
  simp [h]

theorem toNat_bend (channel : Channel) (bend : WideData) :
    (status 0xe channel :: wideBytes bend).map UInt8.toNat =
      [16 * 0xe + channel.val, bend.val % 128, bend.val / 128] := by
  have hlow : (UInt8.ofNat (bend.val % 128)).toNat = bend.val % 128 := toNat_ofNat (by omega)
  have hhigh : (UInt8.ofNat (bend.val / 128)).toNat = bend.val / 128 := toNat_ofNat (by omega)
  simp [wideBytes, hlow, hhigh]

theorem carries_ofVoice {voice : Voice} (h : voice.InRange) : (ofVoice voice).Carries voice := by
  cases voice with
  | noteOff channel note velocity =>
    obtain ⟨hchannel, hnote, hvelocity⟩ := h
    refine ⟨_, rfl, (toNat_framed (by decide) _ _ _).trans ?_⟩
    rw [atMost_val hchannel, atMost_val hnote, atMost_val hvelocity]
    rfl
  | noteOn channel note velocity =>
    obtain ⟨hchannel, hnote, hvelocity⟩ := h
    refine ⟨_, rfl, (toNat_framed (by decide) _ _ _).trans ?_⟩
    rw [atMost_val hchannel, atMost_val hnote, atMost_val hvelocity]
    rfl
  | controlChange channel controller value =>
    obtain ⟨hchannel, hcontroller, hvalue⟩ := h
    refine ⟨_, rfl, (toNat_framed (by decide) _ _ _).trans ?_⟩
    rw [atMost_val hchannel, atMost_val hcontroller, atMost_val hvalue]
    rfl
  | pitchBend channel bend =>
    obtain ⟨hchannel, hbend⟩ := h
    have hwide : (atMost highestBend bend : WideData).val = bend := Nat.min_eq_left hbend
    refine ⟨_, rfl, (toNat_bend _ _).trans ?_⟩
    rw [atMost_val hchannel, hwide]
    rfl

/-- A message that starts with another status byte carries no data. -/
theorem not_carries_of_head {message : Message} {voice : Voice} (hrange : voice.InRange)
    {head : UInt8} (hhead : message.bytes.head? = some head) (hlarge : 0xf0 ≤ head.toNat) :
    ¬message.Carries voice := by
  intro h
  obtain ⟨kind, hkind, channel, hchannel, first, -, second, -, hframed⟩ :=
    Voice.framed_bytes hrange
  have hstatus : head.toNat = kind + channel := by
    have hheads := congrArg List.head? (h.bytes.trans hframed)
    rw [List.head?_map, hhead] at hheads
    exact Option.some.inj hheads
  have hlow : kind ≤ 0xe0 := by
    simp only [List.mem_cons, List.not_mem_nil, or_false] at hkind
    omega
  omega

/-- The data that a message carries are those that can be read from its bytes. -/
theorem Carries.parts {message : Message} {voice : Voice} (h : message.Carries voice)
    (hrange : voice.InRange) {kind first second : Nat} {channel : Channel}
    (hbytes : message.bytes.map UInt8.toNat = [16 * kind + channel.val, first, second])
    (hfirst : first < 0x80) (hsecond : second < 0x80) :
    Voice.ofParts? kind channel.val first second = some voice := by
  have hread := Voice.read?_bytes hrange (hbytes.symm.trans h.bytes)
  rwa [Voice.read?_status kind (Nat.le_of_lt_succ channel.isLt) hfirst hsecond] at hread

/-- The data of a message tell the message. -/
theorem Carries.eq_ofVoice {message : Message} {voice : Voice} (h : message.Carries voice)
    (hrange : voice.InRange) : message = ofVoice voice := by
  cases message with
  | noteOff channel note velocity =>
    cases h.parts hrange (toNat_framed (by decide) channel note velocity) note.isLt velocity.isLt
    simp [ofVoice]
  | noteOn channel note velocity =>
    cases h.parts hrange (toNat_framed (by decide) channel note velocity) note.isLt velocity.isLt
    simp [ofVoice]
  | notePressure channel note pressure =>
    cases h.parts hrange (toNat_framed (by decide) channel note pressure) note.isLt pressure.isLt
  | controlChange channel controller value =>
    cases h.parts hrange (toNat_framed (by decide) channel controller value) controller.isLt
      value.isLt
    simp [ofVoice]
  | programChange channel program =>
    obtain ⟨bytes, hencode, -⟩ := h
    cases hencode
  | channelPressure channel pressure =>
    obtain ⟨bytes, hencode, -⟩ := h
    cases hencode
  | pitchBend channel bend =>
    have hparts := h.parts hrange (toNat_bend channel bend) (by omega) (by omega)
    have hwhole : bend.val % 128 + 128 * (bend.val / 128) = bend.val := by omega
    simp only [Voice.ofParts?, hwhole] at hparts
    cases hparts
    rw [ofVoice, atMost_self]
    exact congrArg (Message.pitchBend channel) (atMost_self bend).symm
  | exclusive data => exact absurd h (not_carries_of_head hrange rfl (by decide))
  | songPosition beats => exact absurd h (not_carries_of_head hrange rfl (by decide))
  | timingClock => exact absurd h (not_carries_of_head hrange rfl (by decide))

/-- What carries the same data is the same message. -/
theorem Carries.unique {message other : Message} {voice : Voice} (h : message.Carries voice)
    (hother : other.Carries voice) (hrange : voice.InRange) : message = other := by
  rw [h.eq_ofVoice hrange, hother.eq_ofVoice hrange]

end Message

/-! ## Streams -/

/-- The bytes of messages of three bytes each, one after the other. -/
def stream (messages : List Message) : List Nat :=
  (messages.filterMap Message.encode?).flatten.map UInt8.toNat

variable {messages : List Message} {voices : List Voice}

theorem stream_of_carries (h : List.Forall₂ Message.Carries messages voices) :
    stream messages = voices.flatMap Voice.bytes := by
  induction h with
  | nil => rfl
  | cons hcarries _ ih =>
    obtain ⟨bytes, hencode, hbytes⟩ := hcarries
    rw [stream, List.filterMap_cons_some hencode, List.flatten_cons, List.map_append, hbytes,
      List.flatMap_cons]
    exact congrArg (_ ++ ·) ih

/-- What messages carry is all that can be read from their bytes. -/
theorem split?_stream (h : List.Forall₂ Message.Carries messages voices)
    (hrange : ∀ voice ∈ voices, voice.InRange) : Voice.split? (stream messages) = some voices :=
  Voice.split?_eq_some_iff.mpr ⟨hrange, stream_of_carries h⟩

/-- Messages that carry data are told apart by their bytes. -/
theorem eq_of_stream_eq {others : List Message} {othervoices : List Voice}
    (h : List.Forall₂ Message.Carries messages voices)
    (hothers : List.Forall₂ Message.Carries others othervoices)
    (hrange : ∀ voice ∈ voices, voice.InRange) (hranges : ∀ voice ∈ othervoices, voice.InRange)
    (heq : stream others = stream messages) : others = messages := by
  have hsame : othervoices = voices := by
    have hsplit := split?_stream hothers hranges
    rw [heq, split?_stream h hrange] at hsplit
    exact (Option.some.inj hsplit).symm
  subst hsame
  clear heq hranges
  induction h generalizing others with
  | nil =>
    cases hothers
    rfl
  | cons hcarries _ ih =>
    obtain ⟨hvoice, hvoices⟩ := List.forall_mem_cons.mp hrange
    cases hothers with
    | cons hother hmore => rw [hother.unique hcarries hvoice, ih hmore hvoices]

end MotionMidi.Midi
