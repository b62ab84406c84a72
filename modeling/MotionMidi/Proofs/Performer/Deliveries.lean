import Mathlib.Data.List.Nodup
import MotionMidi.Proofs.Performer.Cues

/-!
# Deliveries

Which values went through, which ones are due, and what the performer knows about it.

## Main definitions

- `Delivery`, `lastDelivered` — a value that went through, and the last one of a mapping
- `Config.due` — the mappings whose values have to be sent
- `Config.UpToDate` — every mapping has the value that went through last
- `Performer.Remembers` — the performer knows what went through last

Main statements: `Performer.Remembers.due_eq`, `Performer.Remembers.effects`.
-/

namespace MotionMidi

open Midi Performer

/-! ## Deliveries -/

/-- A value that went through. -/
structure Delivery where
  /-- The place of its mapping. -/
  index : Nat
  value : Nat
  deriving DecidableEq, Repr

/-- The value of a mapping that went through last. -/
def lastDelivered (deliveries : List Delivery) (index : Nat) : Option Nat :=
  (deliveries.filter (·.index = index)).getLast?.map (·.value)

/-- The value of a mapping for a reading. -/
def delivery (reading : Reading) (item : Mapping × Nat) : Delivery :=
  ⟨item.2, item.1.value reading⟩

/-- The mappings whose values are sent. -/
def spoken (items : List (Mapping × Nat)) : List (Mapping × Nat) :=
  items.filter (·.1.destination ≠ .note)

namespace Config

/-- The mappings, with their places, whose values have to be sent: they choose no notes, and their
values are not the ones that went through last. -/
def due (config : Config) (reading : Reading) (deliveries : List Delivery) :
    List (Mapping × Nat) :=
  (spoken config.mappings.zipIdx).filter fun (mapping, index) =>
    lastDelivered deliveries index ≠ some (mapping.value reading)

/-- The message for the value of a mapping. -/
def valueMessage? (config : Config) (reading : Reading) (item : Mapping × Nat) : Option Message :=
  message? config.channel item.1.destination (item.1.value reading)

/-- Of every mapping that chooses no notes, the current value went through last. -/
def UpToDate (config : Config) (reading : Reading) (deliveries : List Delivery) : Prop :=
  ∀ mapping index, config.mappings[index]? = some mapping → mapping.destination ≠ .note →
    lastDelivered deliveries index = some (mapping.value reading)

end Config

theorem lastDelivered_append (front back : List Delivery) (index : Nat) :
    lastDelivered (front ++ back) index =
      (lastDelivered back index).or (lastDelivered front index) := by
  rw [lastDelivered, List.filter_append, List.getLast?_append, Option.map_or]
  rfl

theorem lastDelivered_of_ne {deliveries : List Delivery} {index : Nat}
    (h : ∀ delivery ∈ deliveries, delivery.index ≠ index) :
    lastDelivered deliveries index = none := by
  rw [lastDelivered, List.filter_eq_nil_iff.mpr (by simpa using h)]
  rfl

/-- What went through last is something that went through. -/
theorem mem_of_lastDelivered {deliveries : List Delivery} {index value : Nat}
    (h : lastDelivered deliveries index = some value) : ⟨index, value⟩ ∈ deliveries := by
  obtain ⟨⟨index', value'⟩, hlast, rfl⟩ := Option.map_eq_some_iff.mp h
  obtain ⟨hmem, hindex⟩ := List.mem_filter.mp (List.mem_of_getLast? hlast)
  have heq : index' = index := of_decide_eq_true hindex
  rwa [heq] at hmem

namespace Config

theorem valueMessage?_eq_none {config : Config} {reading : Reading} {item : Mapping × Nat} :
    config.valueMessage? reading item = none ↔ item.1.destination = .note := by
  unfold valueMessage? message?
  cases item.1.destination <;> simp

/-- Every mapping that chooses no notes has a message. -/
theorem map_valueMessage?_spoken (config : Config) (reading : Reading)
    (items : List (Mapping × Nat)) :
    (spoken items).map (config.valueMessage? reading) =
      (items.filterMap (config.valueMessage? reading)).map some := by
  induction items with
  | nil => rfl
  | cons item items ih =>
    rw [spoken, List.filterMap_cons]
    cases hmessage : config.valueMessage? reading item with
    | none =>
      rw [List.filter_cons_of_neg (by simpa using valueMessage?_eq_none.mp hmessage)]
      exact ih
    | some message =>
      have hspoken : item.1.destination ≠ .note := by
        intro hnote
        rw [valueMessage?_eq_none.mpr hnote] at hmessage
        cases hmessage
      rw [List.filter_cons_of_pos (by simpa using hspoken), List.map_cons, hmessage]
      exact congrArg (some message :: ·) ih

theorem length_spoken (config : Config) (reading : Reading) (items : List (Mapping × Nat)) :
    (spoken items).length = (items.filterMap (config.valueMessage? reading)).length := by
  have h := congrArg List.length (config.map_valueMessage?_spoken reading items)
  rwa [List.length_map, List.length_map] at h

end Config

/-! ## What the performer remembers -/

namespace Performer

/-- For each mapping that chooses no notes, the performer knows the value that went through last. -/
structure Remembers (performer : Performer) (deliveries : List Delivery) : Prop where
  length : performer.lastValues.length = performer.config.mappings.length
  last : ∀ item ∈ spoken performer.config.mappings.zipIdx,
    performer.lastValues[item.2]? = some (lastDelivered deliveries item.2)

variable {performer : Performer} {deliveries : List Delivery} {reading : Reading}

theorem remembers_adopt (performer : Performer) (config : Config) :
    (performer.adopt config).Remembers [] := by
  refine ⟨List.length_map _, ?_⟩
  rintro ⟨mapping, index⟩ hitem
  have hmapping : config.mappings[index]? = some mapping :=
    List.mk_mem_zipIdx_iff_getElem?.mp (List.mem_of_mem_filter hitem)
  change (config.mappings.map fun _ => none)[index]? = some none
  rw [List.getElem?_map, hmapping]
  rfl

theorem Remembers.congr {other : Performer} (h : performer.Remembers deliveries)
    (hconfig : other.config = performer.config)
    (hvalues : other.lastValues = performer.lastValues) : other.Remembers deliveries := by
  obtain ⟨hlength, hlast⟩ := h
  rw [← hconfig, ← hvalues] at hlength hlast
  exact ⟨hlength, hlast⟩

/-- The performer knows which values are due. -/
theorem Remembers.due_eq (h : performer.Remembers deliveries) (reading : Reading) :
    performer.config.due reading deliveries =
      spoken (performer.config.mappings.zipIdx.filter (performer.Stale reading)) := by
  rw [Config.due, spoken, List.filter_filter, spoken, List.filter_filter]
  refine List.filter_congr fun item hitem => ?_
  by_cases hnote : item.1.destination = .note
  case pos => simp [hnote]
  case neg =>
    have hlast := h.last item (List.mem_filter.mpr ⟨hitem, by simpa using hnote⟩)
    rw [Bool.and_comm]
    congr 1
    rw [decide_eq_decide, Stale, hlast, ne_eq, ne_eq, Option.some_inj]

/-- A place holds one mapping only. -/
theorem eq_of_mem_zipIdx {config : Config} {item other : Mapping × Nat}
    (hitem : item ∈ config.mappings.zipIdx) (hother : other ∈ config.mappings.zipIdx)
    (h : item.2 = other.2) : item = other := by
  obtain ⟨mapping, index⟩ := item
  obtain ⟨mapping', index'⟩ := other
  cases h
  rw [List.mk_mem_zipIdx_iff_getElem?] at hitem hother
  rw [hitem, Option.some_inj] at hother
  rw [hother]

/-- Values that went through once are the last ones of their mappings. -/
theorem lastDelivered_of_mem {config : Config} {items : List (Mapping × Nat)}
    (hitems : ∀ item ∈ items, item ∈ config.mappings.zipIdx) {item : Mapping × Nat}
    (h : item ∈ items) :
    lastDelivered (items.map (delivery reading)) item.2 = some (item.1.value reading) := by
  cases hlast : lastDelivered (items.map (delivery reading)) item.2 with
  | none =>
    rw [lastDelivered, Option.map_eq_none_iff, List.getLast?_eq_none_iff,
      List.filter_eq_nil_iff] at hlast
    exact absurd (decide_eq_true rfl) (hlast (delivery reading item) (List.mem_map_of_mem h))
  | some value =>
    obtain ⟨other, hother, heq⟩ := List.mem_map.mp (mem_of_lastDelivered hlast)
    cases eq_of_mem_zipIdx (hitems other hother) (hitems item h) (congrArg Delivery.index heq)
    exact congrArg some (congrArg Delivery.value heq).symm

theorem lastDelivered_of_not_mem {config : Config} {items : List (Mapping × Nat)}
    (hitems : ∀ item ∈ items, item ∈ config.mappings.zipIdx) {item : Mapping × Nat}
    (hitem : item ∈ config.mappings.zipIdx) (h : item ∉ items) :
    lastDelivered (items.map (delivery reading)) item.2 = none := by
  refine lastDelivered_of_ne fun told htold hindex => ?_
  obtain ⟨other, hother, rfl⟩ := List.mem_map.mp htold
  rw [eq_of_mem_zipIdx (hitems other hother) hitem hindex] at hother
  exact h hother

/-- A value that went through is remembered. -/
theorem Remembers.tell (h : performer.Remembers deliveries) (reading : Reading)
    {item : Mapping × Nat}
    (hitem : item ∈ performer.config.mappings.zipIdx) :
    ((performer.tell reading item).effect performer).Remembers
      (deliveries ++ (spoken [item]).map (delivery reading)) := by
  refine ⟨?_, ?_⟩
  · exact List.length_set.trans h.length
  · intro other hother
    change (performer.lastValues.set item.2 (some (item.1.value reading)))[other.2]? = _
    have hmem : other ∈ performer.config.mappings.zipIdx := List.mem_of_mem_filter hother
    rw [lastDelivered_append]
    by_cases hindex : item.2 = other.2
    case pos =>
      cases eq_of_mem_zipIdx hitem hmem hindex
      have hspoken : spoken [item] = [item] :=
        List.filter_eq_self.mpr (by simpa using (List.mem_filter.mp hother).2)
      have hbound : item.2 < performer.lastValues.length := by
        rw [h.length]
        exact List.snd_lt_of_mem_zipIdx hitem
      have hitems : ∀ other ∈ [item], other ∈ performer.config.mappings.zipIdx := by
        simpa using hitem
      rw [List.getElem?_set_self hbound, hspoken,
        lastDelivered_of_mem hitems (List.mem_singleton.mpr rfl)]
      rfl
    case neg =>
      rw [List.getElem?_set_ne hindex, lastDelivered_of_ne, Option.none_or]
      · exact h.last other hother
      · intro told htold
        obtain ⟨other', hother', rfl⟩ := List.mem_map.mp htold
        cases List.mem_singleton.mp (List.mem_of_mem_filter hother')
        exact hindex

/-- Values that went through are remembered. -/
theorem Remembers.effects (h : performer.Remembers deliveries) (reading : Reading)
    {items : List (Mapping × Nat)}
    (hitems : ∀ item ∈ items, item ∈ performer.config.mappings.zipIdx) :
    (Cue.effects (items.map (performer.tell reading)) performer).Remembers
      (deliveries ++ (spoken items).map (delivery reading)) := by
  induction items generalizing performer deliveries with
  | nil =>
    rwa [spoken, List.filter_nil, List.map_nil, List.map_nil, List.append_nil]
  | cons item items ih =>
    have hfirst := h.tell reading (hitems item (List.mem_cons_self ..))
    have hmore := ih hfirst fun other hother => hitems other (List.mem_cons_of_mem _ hother)
    have hspoken : spoken (item :: items) = spoken [item] ++ spoken items :=
      List.filter_append [item] items
    rw [hspoken, List.map_append, ← List.append_assoc]
    exact hmore

end Performer

end MotionMidi
