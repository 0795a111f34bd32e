import PiiProxy.Core
import PiiProxy.Lib.OrderedDict
import PiiProxy.Lib.Sweep

/-! Resolution of overlapping PII entities into non-overlapping spans (`app/detection/resolution.py`). -/

namespace PiiProxy

namespace Resolution

def priorities : List (PIIType × Nat) := [
  (.bankCard, 90), (.inn, 90), (.passportNumber, 90), (.passportDivisionCode, 90), (.driverLicense, 90),
  (.phone, 80), (.email, 80), (.address, 70),
  (.personName, 60), (.cardholderName, 60), (.birthPlace, 60), (.citizenship, 60), (.country, 60), (.city, 60),
  (.street, 60), (.postalCode, 60), (.passportIssuer, 60), (.passportIssueDate, 60),
  (.cvv, 30), (.pin, 30), (.house, 30), (.apartment, 30)]

def defaultPriority : Nat := 50

def priority (type : PIIType) : Nat := (priorities.lookup type).getD defaultPriority

def overlaps (a b : PIIEntity) : Bool := a.start < b.stop ∧ b.start < a.stop

def better (a b : PIIEntity) : PIIEntity :=
  let pa := priority a.type
  let pb := priority b.type
  if pa ≠ pb then (if pa > pb then a else b)
  else if a.confidence ≠ b.confidence then (if a.confidence > b.confidence then a else b)
  else
    let la := a.stop - a.start
    let lb := b.stop - b.start
    if la ≥ lb then a else b

/-- What two candidates must share to be the same finding. -/
abbrev Key := PIIType × Int × Int

def key (e : PIIEntity) : Key := (e.type, e.start, e.stop)

/-- One pass of the loop that fills `best`. -/
def keepBest (best : OrderedDict Key PIIEntity) (entity : PIIEntity) : OrderedDict Key PIIEntity :=
  match best.get? (key entity) with
  | none => best.set (key entity) entity
  | some current => if entity.confidence > current.confidence then best.set (key entity) entity else best

def deduplicate (entities : List PIIEntity) : OrderedDict Key PIIEntity := entities.foldl keepBest OrderedDict.empty

/-- The order of `sorted(…, key=lambda e: (e.start, e.end))`. -/
abbrev before : PIIEntity → PIIEntity → Prop := Sweep.Before PIIEntity.start PIIEntity.stop

def unique (entities : List PIIEntity) : List PIIEntity := (deduplicate entities).values.insertionSort before

/-- One pass of the loop over the sorted candidates: `resolved[-1]` is replaced, or the entity is appended. -/
def resolveStep (resolved : List PIIEntity) (entity : PIIEntity) : List PIIEntity :=
  match resolved.getLast? with
  | some last => if overlaps last entity then resolved.dropLast ++ [better last entity] else resolved ++ [entity]
  | none => resolved ++ [entity]

end Resolution

def resolveSpans (entities : List PIIEntity) : List PIIEntity :=
  (Resolution.unique entities).foldl Resolution.resolveStep []

namespace Resolution

/-- The pairs that `resolve_spans` compares with `_better`, in the order of its loop. -/
def comparisons (entities : List PIIEntity) : List (PIIEntity × PIIEntity) :=
  Sweep.compared overlaps better (unique entities)

theorem resolveStep_eq : resolveStep = Sweep.step overlaps better := by
  funext resolved entity
  unfold resolveStep Sweep.step
  cases resolved.getLast? <;> rfl

theorem resolveSpans_eq (entities : List PIIEntity) :
    resolveSpans entities = Sweep.pass overlaps better (unique entities) := by
  rw [resolveSpans, resolveStep_eq]
  exact Sweep.foldl_step overlaps better (unique entities)

theorem better_chooses : Sweep.Chooses better := by
  intro a b
  unfold better
  dsimp only
  split_ifs <;> simp

/-! ### The candidates that remain after the duplicates are gone -/

section Deduplicate
variable {d : OrderedDict Key PIIEntity} {x : PIIEntity}

/-- `keepBest` leaves the dictionary as it is or stores the entity under its key. -/
theorem keepBest_cases (d : OrderedDict Key PIIEntity) (x : PIIEntity) :
    keepBest d x = d.set (key x) x ∧ (∀ e, d.get? (key x) = some e → e.confidence < x.confidence) ∨
      keepBest d x = d ∧ ∃ e, d.get? (key x) = some e ∧ x.confidence ≤ e.confidence := by
  unfold keepBest
  cases h : d.get? (key x) with
  | none => exact Or.inl ⟨rfl, fun e he => by cases he⟩
  | some e =>
    by_cases hc : e.confidence < x.confidence
    · exact Or.inl ⟨by simp [hc], fun e' he => by cases he; exact hc⟩
    · exact Or.inr ⟨by simp [hc], e, rfl, Rat.not_lt.mp hc⟩

/-- Every entry stands under its own key. -/
def Keyed (d : OrderedDict Key PIIEntity) : Prop := ∀ k e, d.get? k = some e → k = key e

theorem Keyed.keepBest (hd : Keyed d) : Keyed (keepBest d x) := by
  intro k e hget
  rcases keepBest_cases d x with ⟨heq, -⟩ | ⟨heq, -⟩
  · rw [heq, OrderedDict.get?_set] at hget
    split at hget
    · rename_i hk
      cases hget
      exact hk
    · exact hd k e hget
  · rw [heq] at hget
    exact hd k e hget

theorem Keyed.foldl (hd : Keyed d) (entities : List PIIEntity) : Keyed (entities.foldl Resolution.keepBest d) := by
  induction entities generalizing d with
  | nil => exact hd
  | cons x l ih => exact ih hd.keepBest

theorem keyed_deduplicate (entities : List PIIEntity) : Keyed (deduplicate entities) :=
  Keyed.foldl (fun k e h => by simp at h) entities

theorem mem_values {e : PIIEntity} (hd : Keyed d) : e ∈ d.values ↔ d.get? (key e) = some e := by
  rw [OrderedDict.values, List.mem_map, OrderedDict.get?_eq_some]
  constructor
  · rintro ⟨⟨k, e'⟩, hmem, rfl⟩
    rw [← hd k e' (OrderedDict.get?_eq_some.mpr hmem)]
    exact hmem
  · exact fun h => ⟨_, h, rfl⟩

/-- Two different entries have different keys, so no entity stands twice. -/
theorem nodup_keys (hd : Keyed d) : (d.values.map key).Nodup := by
  have hkeys : d.values.map key = d.entries.map (·.1) := by
    rw [OrderedDict.values, List.map_map]
    exact List.map_congr_left fun e he => (hd e.1 e.2 (OrderedDict.get?_eq_some.mpr he)).symm
  exact hkeys ▸ d.nodup

theorem nodup_values (hd : Keyed d) : d.values.Nodup := List.Nodup.of_map key (nodup_keys hd)

theorem nodup_unique (entities : List PIIEntity) : (unique entities).Nodup :=
  (List.perm_insertionSort _ _).nodup_iff.mpr (nodup_values (keyed_deduplicate entities))

theorem nodup_keys_unique (entities : List PIIEntity) : ((unique entities).map key).Nodup :=
  ((List.perm_insertionSort before _).map key).nodup_iff.mpr (nodup_keys (keyed_deduplicate entities))

theorem sorted_unique (entities : List PIIEntity) : (unique entities).Pairwise before :=
  List.pairwise_insertionSort _ _

/-- What the loop has stored comes from the entities that it has seen. -/
theorem mem_of_foldl_keepBest {entities : List PIIEntity} {k : Key} {e : PIIEntity}
    (h : (entities.foldl keepBest d).get? k = some e) : d.get? k = some e ∨ e ∈ entities := by
  induction entities generalizing d with
  | nil => exact Or.inl h
  | cons x l ih =>
    rcases ih h with h | h
    · rcases keepBest_cases d x with ⟨heq, -⟩ | ⟨heq, -⟩
      · rw [heq, OrderedDict.get?_set] at h
        split at h
        · cases h
          exact Or.inr (by simp)
        · exact Or.inl h
      · exact Or.inl (heq ▸ h)
    · exact Or.inr (List.mem_cons_of_mem _ h)

theorem mem_of_mem_unique {entities : List PIIEntity} {e : PIIEntity} (h : e ∈ unique entities) : e ∈ entities := by
  rw [unique, List.mem_insertionSort, mem_values (keyed_deduplicate entities)] at h
  exact (mem_of_foldl_keepBest h).resolve_left (by simp)

/-- What is stored under a key is replaced only by an entity of a higher confidence. -/
theorem get?_keepBest {k : Key} {e : PIIEntity} (h : d.get? k = some e) :
    ∃ u, (keepBest d x).get? k = some u ∧ e.confidence ≤ u.confidence := by
  rcases keepBest_cases d x with ⟨heq, hlt⟩ | ⟨heq, -⟩
  · rw [heq, OrderedDict.get?_set]
    by_cases hk : k = key x
    · rw [if_pos hk]
      exact ⟨x, rfl, Rat.le_of_lt (hlt e (hk ▸ h))⟩
    · rw [if_neg hk]
      exact ⟨e, h, Rat.le_refl⟩
  · rw [heq]
    exact ⟨e, h, Rat.le_refl⟩

theorem get?_foldl_keepBest {entities : List PIIEntity} {k : Key} {e : PIIEntity} (h : d.get? k = some e) :
    ∃ u, (entities.foldl keepBest d).get? k = some u ∧ e.confidence ≤ u.confidence := by
  induction entities generalizing d e with
  | nil => exact ⟨e, h, Rat.le_refl⟩
  | cons x l ih =>
    obtain ⟨u, hu, hle⟩ := get?_keepBest (x := x) h
    obtain ⟨v, hv, hle'⟩ := ih hu
    exact ⟨v, hv, Rat.le_trans hle hle'⟩

/-- Each candidate is represented by one with its type and its span that is at least as certain. -/
theorem exists_mem_unique {entities : List PIIEntity} {e : PIIEntity} (h : e ∈ entities) :
    ∃ u ∈ unique entities, key u = key e ∧ e.confidence ≤ u.confidence := by
  have stored : ∀ (l : List PIIEntity) (d : OrderedDict Key PIIEntity), e ∈ l →
      ∃ u, (l.foldl keepBest d).get? (key e) = some u ∧ e.confidence ≤ u.confidence := by
    intro l
    induction l with
    | nil => exact fun d he => by cases he
    | cons x l ih =>
      intro d he
      rcases List.mem_cons.mp he with rfl | he
      · obtain ⟨u, hu, hle⟩ : ∃ u, (keepBest d e).get? (key e) = some u ∧ e.confidence ≤ u.confidence := by
          rcases keepBest_cases d e with ⟨heq, -⟩ | ⟨heq, u, hu, hle⟩
          · rw [heq, OrderedDict.get?_set, if_pos rfl]
            exact ⟨e, rfl, Rat.le_refl⟩
          · rw [heq]
            exact ⟨u, hu, hle⟩
        obtain ⟨v, hv, hle'⟩ : ∃ v, (l.foldl keepBest (keepBest d e)).get? (key e) = some v ∧
            u.confidence ≤ v.confidence := get?_foldl_keepBest hu
        exact ⟨v, hv, Rat.le_trans hle hle'⟩
      · exact ih _ he
  obtain ⟨u, hu, hle⟩ := stored entities OrderedDict.empty h
  have hkey := keyed_deduplicate entities _ u hu
  refine ⟨u, ?_, hkey.symm, hle⟩
  rw [unique, List.mem_insertionSort, mem_values (keyed_deduplicate entities), ← hkey]
  exact hu

end Deduplicate

theorem mem_resolveSpans {entities : List PIIEntity} {e : PIIEntity} :
    e ∈ resolveSpans entities ↔
      e ∈ unique entities ∧ Sweep.Unbeaten better (comparisons entities) e := by
  rw [resolveSpans_eq]
  exact Sweep.mem_pass_iff better_chooses (nodup_unique entities)

/-- What is kept stands apart, in order. -/
theorem pairwise_resolveSpans {entities : List PIIEntity} (proper : ∀ e ∈ entities, e.start ≤ e.stop) :
    (resolveSpans entities).Pairwise fun a b => a.stop ≤ b.start := by
  rw [resolveSpans_eq]
  exact Sweep.pass_pairwise better_chooses (fun _ _ => Sweep.Before.start_le) (sorted_unique entities)
    fun x e he hxe hno => Sweep.stop_le_start hxe (proper e (mem_of_mem_unique he)) hno

/-! ### Removing types before the resolution -/

section Types
variable (on : PIIType → Bool)

theorem filterKeys_foldl_keepBest (entities : List PIIEntity) (d : OrderedDict Key PIIEntity) :
    (entities.foldl keepBest d).filterKeys (fun k => on k.1) =
      (entities.filter fun e => on e.type).foldl keepBest (d.filterKeys fun k => on k.1) := by
  induction entities generalizing d with
  | nil => rfl
  | cons x l ih =>
    rw [List.foldl_cons, ih]
    cases hx : on x.type with
    | true =>
      rw [List.filter_cons_of_pos (p := fun e : PIIEntity => on e.type) hx, List.foldl_cons]
      have hget : (d.filterKeys fun k => on k.1).get? (key x) = d.get? (key x) := OrderedDict.get?_filterKeys hx
      congr 1
      unfold keepBest
      rw [hget]
      split
      · exact OrderedDict.filterKeys_set_of_pos x hx
      · split
        · exact OrderedDict.filterKeys_set_of_pos x hx
        · rfl
    | false =>
      rw [List.filter_cons_of_neg (by simp [hx])]
      congr 1
      rcases keepBest_cases d x with ⟨heq, -⟩ | ⟨heq, -⟩
      · rw [heq]
        exact OrderedDict.filterKeys_set_of_neg x hx
      · rw [heq]

theorem unique_filter (entities : List PIIEntity) :
    unique (entities.filter fun e => on e.type) = (unique entities).filter fun e => on e.type := by
  have hvalues : (deduplicate (entities.filter fun e => on e.type)).values =
      (deduplicate entities).values.filter fun e => on e.type := by
    have hdict : deduplicate (entities.filter fun e => on e.type) = (deduplicate entities).filterKeys fun k => on k.1 :=
      (filterKeys_foldl_keepBest on entities OrderedDict.empty).symm
    rw [hdict, OrderedDict.values, OrderedDict.values, OrderedDict.entries_filterKeys, List.filter_map]
    refine congrArg _ (List.filter_congr fun e he => ?_)
    rw [keyed_deduplicate entities e.1 e.2 (OrderedDict.get?_eq_some.mpr he)]
    rfl
  rw [unique, hvalues, unique, Sweep.filter_insertionSort]

/-- No candidate that the policy leaves out wins against one that it protects, and none of them ends before
    it starts. -/
structure Harmless (entities : List PIIEntity) : Prop where
  proper : ∀ e ∈ entities, on e.type = false → e.start ≤ e.stop
  win : Sweep.MarkedWin (fun e => on e.type) better (comparisons entities)

theorem resolveSpans_filter {entities : List PIIEntity} (h : Harmless on entities) :
    resolveSpans (entities.filter fun e => on e.type) = (resolveSpans entities).filter fun e => on e.type := by
  rw [resolveSpans_eq, resolveSpans_eq, unique_filter]
  exact (Sweep.filter_pass better_chooses (sorted_unique entities)
    (fun e he hoff => h.proper e (mem_of_mem_unique he) hoff) h.win).symm

/-! ### Initial parts of the candidates -/

theorem foldl_keepBest_of_new {entities : List PIIEntity} (d : OrderedDict Key PIIEntity)
    (hnew : ∀ e ∈ entities, d.contains (key e) = false) (hkeys : (entities.map key).Nodup) :
    (entities.foldl keepBest d).values = d.values ++ entities := by
  induction entities generalizing d with
  | nil => simp
  | cons x l ih =>
    obtain ⟨hx, hl⟩ := List.nodup_cons.mp hkeys
    have hget : d.get? (key x) = none := OrderedDict.contains_eq_false.mp (hnew x List.mem_cons_self)
    have hstep : keepBest d x = d.set (key x) x := by simp [keepBest, hget]
    have hnew' : ∀ e ∈ l, (keepBest d x).contains (key e) = false := by
      intro e he
      have hne : key e ≠ key x := fun h => hx (h ▸ List.mem_map_of_mem he)
      have hno := OrderedDict.contains_eq_false.mp (hnew e (List.mem_cons_of_mem _ he))
      rw [hstep, OrderedDict.contains_eq_false, OrderedDict.get?_set, if_neg hne, hno]
    rw [List.foldl_cons, ih _ hnew' hl, hstep, OrderedDict.values,
      OrderedDict.entries_set_of_new x (hnew x List.mem_cons_self), List.map_append, List.append_assoc]
    rfl

/-- The candidates that are left after sorting, or an initial part of them, are left as they are. -/
theorem unique_initial {entities p : List PIIEntity} (hp : p <+: unique entities) : unique p = p := by
  have hvalues : (deduplicate p).values = p :=
    foldl_keepBest_of_new OrderedDict.empty (fun e _ => rfl) ((nodup_keys_unique entities).sublist (hp.sublist.map key))
  rw [unique, hvalues]
  exact ((sorted_unique entities).sublist hp.sublist).insertionSort_eq

theorem resolveSpans_initial_iff {entities : List PIIEntity} (proper : ∀ e ∈ entities, e.start ≤ e.stop) :
    (∀ p, p <+: unique entities →
        (resolveSpans p).filter (fun e => on e.type) = resolveSpans (p.filter fun e => on e.type)) ↔
      Sweep.MarkedWin (fun e => on e.type) better (comparisons entities) := by
  refine Iff.trans ?_ (Sweep.filter_pass_iff better_chooses (sorted_unique entities)
    fun e he => proper e (mem_of_mem_unique he))
  refine forall_congr' fun p => imp_congr_right fun hp => ?_
  rw [resolveSpans_eq, resolveSpans_eq, unique_filter, unique_initial hp]
  rfl

end Types

end Resolution

end PiiProxy
