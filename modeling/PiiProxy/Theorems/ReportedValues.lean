import PiiProxy.Detection.LLMDetector

/-! # Which reported values are found

The model reports each value once, and the detector looks for its first occurrence only. One item that lacks a key, or
that is no object, discards what all the others report. -/

namespace PiiProxy.LLMDetector
open RegexDetector (mapM_isOk isOk_of_mapM mem_of_mapM)

/-- An object with a known type and a text. -/
def Reports (item : Json) (type : PIIType) (needle : Str) : Prop :=
  ∃ fields, item = .obj fields ∧ fields.lookup "type".toList = some (.str type.value) ∧
    fields.lookup "text".toList = some (.str needle)

/-- An item without a type to read, or with a known type and no text: its exception is not the one that the loop
    catches. -/
def Breaks (item : Json) : Prop :=
  (∀ fields, item = .obj fields → fields.lookup "type".toList = none) ∨
    ∃ fields type, item = .obj fields ∧ fields.lookup "type".toList = some (.str (PIIType.value type)) ∧
      ∀ needle, fields.lookup "text".toList ≠ some (.str needle)

section
variable {text : Str} {item : Json} {items : List Json}

theorem subscript_obj {fields : List (Str × Json)} {key : Str} {v : Json} (h : fields.lookup key = some v) :
    (Json.obj fields).subscript key = .ok v := by
  rw [Json.subscript, h]

theorem subscript_eq_ok {key : Str} {v : Json} :
    item.subscript key = .ok v ↔ ∃ fields, item = .obj fields ∧ fields.lookup key = some v := by
  constructor
  · intro h
    cases item with
    | obj fields =>
      cases hlookup : fields.lookup key with
      | none =>
        rw [Json.subscript, hlookup] at h
        cases h
      | some w =>
        rw [Json.subscript, hlookup] at h
        obtain rfl := Except.ok.inj h
        exact ⟨fields, rfl, hlookup⟩
    | null | bool | number | str | arr => cases h
  · rintro ⟨fields, rfl, h⟩
    exact subscript_obj h

theorem piiType_eq_some {v : Json} {type : PIIType} : piiType v = some type ↔ v = .str type.value := by
  constructor
  · intro h
    cases v with
    | str raw => rw [PIIType.ofValue?_eq_some.mp h]
    | null | bool | number | arr | obj => cases h
  · rintro rfl
    exact PIIType.ofValue?_eq_some.mpr rfl

theorem parseItem_of_type {raw : Json} (h : item.subscript "type".toList = .ok raw) (text : Str) :
    parseItem text item = match piiType raw with
      | none => .ok none
      | some type => item.subscript "text".toList >>= locate text type := by
  rw [parseItem, h]
  rfl

theorem Reports.unique {type type' : PIIType} {needle needle' : Str} (h : Reports item type needle)
    (h' : Reports item type' needle') : type = type' ∧ needle = needle' := by
  obtain ⟨fields, rfl, htype, hneedle⟩ := h
  obtain ⟨fields', hitem, htype', hneedle'⟩ := h'
  cases hitem
  rw [htype] at htype'
  rw [hneedle] at hneedle'
  have hvalue : type.value = type'.value := by
    injection Option.some.inj htype'
  injection Option.some.inj hneedle' with hneedle
  exact ⟨PIIType.eq_of_value_eq hvalue, hneedle⟩

theorem Reports.not_breaks {type : PIIType} {needle : Str} (h : Reports item type needle) : ¬ Breaks item := by
  obtain ⟨fields, rfl, htype, hneedle⟩ := h
  rintro (hread | ⟨fields', type', hitem, -, hno⟩)
  · rw [hread fields rfl] at htype
    cases htype
  · cases hitem
    exact hno needle hneedle

/-- What a pass of the loop does with an item. -/
theorem parseItem_cases (text : Str) (item : Json) :
    (∃ e, parseItem text item = .error e) ∧ Breaks item ∨
      parseItem text item = .ok none ∧ ¬ Breaks item ∧ (∀ type needle, ¬ Reports item type needle) ∨
        ∃ type needle, Reports item type needle ∧
          parseItem text item = .ok ((find needle text).map (entityAt type needle)) := by
  cases htype : item.subscript "type".toList with
  | error e =>
    refine Or.inl ⟨⟨e, by rw [parseItem, htype]; rfl⟩, Or.inl fun fields hitem => ?_⟩
    by_contra hkey
    obtain ⟨v, hv⟩ := Option.ne_none_iff_exists'.mp hkey
    rw [hitem, subscript_obj hv] at htype
    cases htype
  | ok raw =>
    rw [parseItem_of_type htype]
    obtain ⟨fields, rfl, hraw⟩ := subscript_eq_ok.mp htype
    cases hmember : piiType raw with
    | none =>
      have hunknown : ∀ type, fields.lookup "type".toList ≠ some (.str (PIIType.value type)) := by
        intro type h
        rw [hraw] at h
        rw [piiType_eq_some.mpr (Option.some.inj h)] at hmember
        cases hmember
      refine Or.inr (Or.inl ⟨rfl, ?_, ?_⟩)
      · rintro (h | ⟨fields', type, hitem, h, -⟩)
        · rw [h fields rfl] at hraw
          cases hraw
        · cases hitem
          exact hunknown type h
      · rintro type needle ⟨fields', hitem, h, -⟩
        cases hitem
        exact hunknown type h
    | some type =>
      have hknown : fields.lookup "type".toList = some (.str type.value) := by rw [hraw, piiType_eq_some.mp hmember]
      have hbreaks : (∀ needle, fields.lookup "text".toList ≠ some (.str needle)) → Breaks (.obj fields) := fun h =>
        Or.inr ⟨fields, type, rfl, hknown, h⟩
      cases htext : (Json.obj fields).subscript "text".toList with
      | error e =>
        refine Or.inl ⟨⟨e, rfl⟩, hbreaks fun needle h => ?_⟩
        rw [subscript_obj h] at htext
        cases htext
      | ok v =>
        obtain ⟨fields', hitem, hv⟩ := subscript_eq_ok.mp htext
        cases hitem
        cases v with
        | str needle =>
          exact Or.inr (Or.inr ⟨type, needle, ⟨fields, rfl, hknown, hv⟩, rfl⟩)
        | null | bool | number | arr | obj =>
          refine Or.inl ⟨⟨_, rfl⟩, hbreaks fun needle h => ?_⟩
          rw [hv] at h
          cases h

theorem parseItems_isOk_iff : (∃ parsed, items.mapM (parseItem text) = .ok parsed) ↔ ∀ item ∈ items, ¬ Breaks item := by
  constructor
  · rintro ⟨parsed, hparsed⟩ item hitem hbreaks
    obtain ⟨r, hr⟩ := isOk_of_mapM hparsed item hitem
    rcases parseItem_cases text item with ⟨⟨e, he⟩, -⟩ | ⟨-, hno, -⟩ | ⟨type, needle, hreports, -⟩
    · rw [he] at hr
      cases hr
    · exact hno hbreaks
    · exact hreports.not_breaks hbreaks
  · intro h
    refine mapM_isOk fun item hitem => ?_
    rcases parseItem_cases text item with ⟨-, hbreaks⟩ | ⟨hr, -⟩ | ⟨type, needle, -, hr⟩
    · exact absurd hbreaks (h item hitem)
    · exact ⟨_, hr⟩
    · exact ⟨_, hr⟩

theorem parseItem_eq_some {e : PIIEntity} : parseItem text item = .ok (some e) ↔
    ∃ type needle start, Reports item type needle ∧ find needle text = some start ∧ e = entityAt type needle start := by
  rcases parseItem_cases text item with ⟨⟨_, hr⟩, hbreaks⟩ | ⟨hr, -, hno⟩ | ⟨type, needle, hreports, hr⟩
  · rw [hr]
    constructor
    · rintro ⟨⟩
    · rintro ⟨type, needle, start, hreports, -⟩
      exact absurd hbreaks hreports.not_breaks
  · rw [hr]
    constructor
    · rintro ⟨⟩
    · rintro ⟨type, needle, start, hreports, -⟩
      exact absurd hreports (hno type needle)
  · rw [hr, Except.ok.injEq, Option.map_eq_some_iff]
    constructor
    · rintro ⟨start, hstart, rfl⟩
      exact ⟨type, needle, start, hreports, hstart, rfl⟩
    · rintro ⟨type', needle', start, hreports', hstart, rfl⟩
      obtain ⟨rfl, rfl⟩ := hreports.unique hreports'
      exact ⟨start, hstart, rfl⟩

section
variable {loads : Str → Except PIIProxyError Json} {complete : Str → Except PIIProxyError Str} {enabled : Bool}
  {context : DetectionContext} {response : Str} {fields : List (Str × Json)}

theorem mem_detect (hcomplete : complete text = .ok response) (hloads : loads response = .ok (.obj fields))
    (hitems : fields.lookup "entities".toList = some (.arr items)) {e : PIIEntity} :
    e ∈ detect loads complete enabled text context ↔ enabled = true ∧ (∀ item ∈ items, ¬ Breaks item) ∧
      ∃ item ∈ items, ∃ type needle start, Reports item type needle ∧ find needle text = some start ∧
        e = entityAt type needle start := by
  have hresponse : (complete text >>= parseResponse loads text) =
      (items.mapM (parseItem text)).map List.reduceOption := by
    rw [hcomplete]
    show (loads response >>= fun payload => _) = _
    rw [hloads]
    show ((Json.obj fields).subscript "entities".toList >>= fun found => _) = _
    rw [subscript_obj hitems]
    rfl
  unfold detect
  rw [hresponse, ← @parseItems_isOk_iff text items]
  cases enabled with
  | false => simp
  | true =>
    cases hparsed : items.mapM (parseItem text) with
    | error e' => simp [Except.map]
    | ok parsed =>
      have hmem : e ∈ parsed.reduceOption ↔ ∃ item ∈ items, parseItem text item = .ok (some e) := by
        rw [List.reduceOption_mem_iff, mem_of_mapM hparsed]
      simp only [parseItem_eq_some] at hmem
      simp [Except.map, hmem]

/-- The occurrence of a text at `i` lies in an entity of its type, which holds what the payload has in its place. -/
def Covered (text : Str) (entities : List PIIEntity) (type : PIIType) (needle : Str) (i : Nat) : Prop :=
  ∃ e ∈ entities, e.type = type ∧ e.start ≤ i ∧ i + needle.length ≤ e.stop ∧
    e.value = slice text e.start.toNat e.stop.toNat

theorem value_entityAt {type : PIIType} {needle : Str} {start : Nat} (h : find needle text = some start) :
    (entityAt type needle start).value =
      slice text (entityAt type needle start).start.toNat (entityAt type needle start).stop.toNat := by
  obtain ⟨hfound, -⟩ := find_eq_some.mp h
  have hlength : ((start : Int) + needle.length).toNat - start = needle.length := by omega
  show needle = slice text start ((start : Int) + needle.length).toNat
  rw [slice, hlength, ← List.prefix_iff_eq_take.mp hfound]

/-- The detector covers every value that the model reports, at every occurrence, exactly if it is enabled, no item breaks,
    and each occurrence lies in the first occurrence of a value that is reported with its type. -/
theorem reported_covered_iff (hcomplete : complete text = .ok response) (hloads : loads response = .ok (.obj fields))
    (hitems : fields.lookup "entities".toList = some (.arr items)) :
    (∀ item ∈ items, ∀ type needle, Reports item type needle → needle ≠ [] → ∀ i : Nat, needle <+: text.drop i →
        Covered text (detect loads complete enabled text context) type needle i) ↔
      ∀ item ∈ items, ∀ type needle, Reports item type needle → needle ≠ [] → ∀ i : Nat, needle <+: text.drop i →
        enabled = true ∧ (∀ other ∈ items, ¬ Breaks other) ∧
          ∃ other ∈ items, ∃ longer start, Reports other type longer ∧ find longer text = some start ∧
            start ≤ i ∧ i + needle.length ≤ start + longer.length := by
  refine forall₂_congr fun item _ => forall₄_congr fun type needle _ _ => forall₂_congr fun i _ => ?_
  unfold Covered
  constructor
  · rintro ⟨e, he, rfl, hstart, hstop, -⟩
    obtain ⟨henabled, hbreaks, other, hother, type, longer, start, hreports, hfind, rfl⟩ :=
      (mem_detect hcomplete hloads hitems).mp he
    exact ⟨henabled, hbreaks, other, hother, longer, start, hreports, hfind, Int.ofNat_le.mp hstart, by
      have : ((i + needle.length : Nat) : Int) ≤ ((start + longer.length : Nat) : Int) := hstop
      exact Int.ofNat_le.mp this⟩
  · rintro ⟨henabled, hbreaks, other, hother, longer, start, hreports, hfind, hstart, hstop⟩
    refine ⟨entityAt type longer start, (mem_detect hcomplete hloads hitems).mpr
      ⟨henabled, hbreaks, other, hother, type, longer, start, hreports, hfind, rfl⟩, rfl, ?_, ?_, value_entityAt hfind⟩
    · exact Int.ofNat_le.mpr hstart
    · exact Int.ofNat_le.mpr hstop

end

end

/-! ### A value that stands in the text twice -/

/-- One item, an object that reports a name. -/
def ann : Json := .obj [("type".toList, .str "PERSON_NAME".toList), ("text".toList, .str "Ann".toList)]

theorem reports_ann : Reports ann .personName "Ann".toList := ⟨_, rfl, rfl, rfl⟩

def reply : Str := "\x7b\"entities\":[\x7b\"type\":\"PERSON_NAME\",\"text\":\"Ann\"\x7d]\x7d".toList

/-- The reply with an item more, the number 5. -/
def longerReply : Str := "\x7b\"entities\":[\x7b\"type\":\"PERSON_NAME\",\"text\":\"Ann\"\x7d,5]\x7d".toList

/-- `json.loads` on these replies. -/
def loads (response : Str) : Except PIIProxyError Json :=
  if response = reply then .ok (.obj [("entities".toList, .arr [ann])])
  else if response = longerReply then .ok (.obj [("entities".toList, .arr [ann, .number "5".toList])])
  else .error (.other "JSONDecodeError")

theorem reported_covered_iff_ann :
    (∀ item ∈ [ann], ∀ type needle, Reports item type needle → needle ≠ [] → ∀ i : Nat, needle <+: "Ann".toList.drop i →
        Covered "Ann".toList (detect loads (fun _ => .ok reply) true "Ann".toList {}) type needle i) ↔
      ∀ item ∈ [ann], ∀ type needle, Reports item type needle → needle ≠ [] → ∀ i : Nat, needle <+: "Ann".toList.drop i →
        true = true ∧ (∀ other ∈ [ann], ¬ Breaks other) ∧
          ∃ other ∈ [ann], ∃ longer start, Reports other type longer ∧ find longer "Ann".toList = some start ∧
            start ≤ i ∧ i + needle.length ≤ start + longer.length :=
  reported_covered_iff rfl (if_pos rfl) rfl

/-- The second occurrence is not covered, and with a broken item not even the first. -/
theorem second_name_missed :
    detect loads (fun _ => .ok reply) true "Ann, Ann".toList {} = [entityAt .personName "Ann".toList 0] ∧
      (¬ ∀ item ∈ [ann], ∀ type needle, Reports item type needle → needle ≠ [] → ∀ i : Nat,
        needle <+: "Ann, Ann".toList.drop i →
          Covered "Ann, Ann".toList (detect loads (fun _ => .ok reply) true "Ann, Ann".toList {}) type needle i) ∧
      detect loads (fun _ => .ok longerReply) true "Ann".toList {} = [] := by
  have hfirst : detect loads (fun _ => .ok reply) true "Ann, Ann".toList {} = [entityAt .personName "Ann".toList 0] := by
    decide +kernel
  refine ⟨hfirst, fun h => ?_, by decide +kernel⟩
  rw [hfirst] at h
  obtain ⟨e, he, -, -, hstop, -⟩ := h ann (List.mem_singleton_self ann) .personName "Ann".toList reports_ann (by decide) 5
    (by decide)
  obtain rfl := List.mem_singleton.mp he
  exact absurd hstop (by decide)

end PiiProxy.LLMDetector
