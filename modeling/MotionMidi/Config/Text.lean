import MotionMidi.Config.Meaning

/-!
# The text of a configuration

## Main definitions

- `Config.words`, `Config.text` — the written form, with every setting and every range spelled out
- `Config.factoryText` — the text that holds as long as nothing is saved
- `Config.factory` — the configuration that it describes
-/

namespace MotionMidi.Config

/-- The words of the written form. -/
def words (config : Config) : List String :=
  ["CHAN", Numeral.text config.channel, "ROOT", config.root.name, "SCALE"] ++
    config.intervals.map Numeral.text ++
    ["OCTAVES", Numeral.text config.firstOctave, Numeral.text config.lastOctave,
      "BPM", Numeral.text config.tempo, "DIV", config.division.text] ++
    config.mappings.flatMap (fun mapping => "MAP" :: mapping.words) ++
    ["END."]

/-- The written form. -/
def text (config : Config) : String :=
  " ".intercalate config.words

/-- The text that holds as long as nothing is saved. -/
def factoryText : String := "
    CHAN 1
    ROOT C
    SCALE 0 1 5 7 10
    OCTAVES 2 7
    BPM 100
    DIV 0.25

    MAP ax -1 1 48 100 note
    MAP jx- cc 16
    MAP jx+ cc 19
    MAP jy pb
    MAP ay cc 17
    MAP az 1 -1 0 127 cc 18

    END.
"

/-- The configuration that holds as long as nothing is saved. -/
def factory : Config :=
  ((parse factoryText).toOption.map Parsed.config).getD {}

end MotionMidi.Config
