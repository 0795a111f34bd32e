import PiiProxy.Lib.History
import PiiProxy.Restoration.Redis

/-! # The calls on a Redis key have one order

Each call takes effect at one of its commands: a plain command where it is sent, a transition at the `EXEC` that
succeeds. An `EXEC` succeeds only if nothing touched the key since the `GET`, so what it writes is what the callback
makes of the value that stands there. -/

namespace PiiProxy.RedisRestorationStore
open History

section
variable {codec : Codec} {ι : Type} (payloadId : Str) (ops : ι → Op)

/-- A key of a sequential store: what an event makes of the value, and which answers are right. -/
def keyObject (codec : Codec) : Object (Option codec.Token) (Event ι) where
  effect value
    | .expire => none
    | .call i answer =>
      match ops i, answer with
      | .save state, _ => some (codec.encode state)
      | .delete, _ => none
      | .transition _, .ok newState => newState.map codec.encode
      | _, _ => value
  right value
    | .expire => value ≠ none
    | .call i answer =>
      match ops i with
      | .get => answer = decodeValue codec payloadId value
      | .save _ | .delete => answer = .ok none
      | .transition fn => answer = (decodeValue codec payloadId value).bind fn ∨ answer = .error contention

variable {payloadId ops} {init : Option codec.Token} {s s' : System codec ι}

/-- The calls of an order. -/
def clients (order : List (Event ι)) : List ι :=
  order.filterMap fun
    | .expire => none
    | .call i _ => some i

theorem mem_clients {order : List (Event ι)} {i : ι} : i ∈ clients order ↔ ∃ answer, .call i answer ∈ order := by
  rw [clients, List.mem_filterMap]
  constructor
  · rintro ⟨event, hmem, hevent⟩
    cases event with
    | expire => cases hevent
    | call j answer =>
      obtain rfl := Option.some.inj hevent
      exact ⟨answer, hmem⟩
  · rintro ⟨answer, hmem⟩
    exact ⟨_, hmem, rfl⟩

/-- What holds after every step: the order is a legal history that leads to the value, it has every finished call
    once, and an `EXEC` that nothing would stop is about to write what the callback makes of the value. -/
structure Inv (payloadId : Str) (ops : ι → Op) (init : Option codec.Token) (s : System codec ι) : Prop where
  legal : (keyObject payloadId ops codec).Legal init s.order
  value : (keyObject payloadId ops codec).after init s.order = s.value
  finished : ∀ i answer, s.phase i = .done answer ↔ .call i answer ∈ s.order
  once : (clients s.order).Nodup
  ready : ∀ {i fn attempt newState}, ops i = .transition fn → s.phase i = .ready attempt newState →
    s.touched i = false → (decodeValue codec payloadId s.value).bind fn = .ok newState

theorem inv_start (payloadId : Str) (ops : ι → Op) (init : Option codec.Token) :
    Inv payloadId ops init (System.start init) where
  legal := trivial
  value := rfl
  finished i answer := by simp [System.start]
  once := List.nodup_nil
  ready _ h := by cases h

/-- Only the value changes from `s` to `s'`, and every call to which that matters is touched. -/
structure Writes (s s' : System codec ι) : Prop where
  phase : s'.phase = s.phase
  order : s'.order = s.order
  untouched : ∀ {i}, s'.touched i = false → s'.value = s.value ∧ s.touched i = false

theorem Writes.refl (s : System codec ι) : Writes s s := ⟨rfl, rfl, fun h => ⟨rfl, h⟩⟩

theorem writes_write (s : System codec ι) (value : Option codec.Token) : Writes s (s.write value) where
  phase := rfl
  order := rfl
  untouched {i} h := by
    unfold System.write at h ⊢
    dsimp only at h ⊢
    split at h
    · rename_i hnone
      obtain ⟨hold, hnew⟩ := Bool.and_eq_true_iff.mp hnone
      rw [Option.isNone_iff_eq_none] at hold hnew
      exact ⟨hnew.trans hold.symm, h⟩
    · cases h

variable [DecidableEq ι]

/-- A call that has not ended moves on within its attempt. -/
theorem Inv.moveTo {i : ι} {phase : Phase} (h : Inv payloadId ops init s) (hrunning : ∀ answer, s.phase i ≠ .done answer)
    (hphase : ∀ answer, phase ≠ .done answer)
    (hready : ∀ {fn attempt newState}, ops i = .transition fn → phase = .ready attempt newState →
      (decodeValue codec payloadId s.value).bind fn = .ok newState) : Inv payloadId ops init (s.moveTo i phase) where
  legal := h.legal
  value := h.value
  finished j answer := by
    rw [phase_moveTo, order_moveTo]
    by_cases hj : j = i
    · subst hj
      rw [Function.update_self]
      exact ⟨fun heq => absurd heq (hphase answer), fun hmem => absurd ((h.finished j answer).mpr hmem) (hrunning answer)⟩
    · rw [Function.update_of_ne hj]
      exact h.finished j answer
  once := h.once
  ready {j fn attempt newState} hop hj huntouched := by
    rw [phase_moveTo] at hj
    by_cases hji : j = i
    · subst hji
      rw [Function.update_self] at hj
      exact hready hop hj
    · rw [Function.update_of_ne hji] at hj
      exact h.ready hop hj huntouched

theorem Inv.watch {i : ι} (h : Inv payloadId ops init s)
    (hnotReady : ∀ attempt newState, s.phase i ≠ .ready attempt newState) : Inv payloadId ops init (s.watch i) where
  legal := h.legal
  value := h.value
  finished := h.finished
  once := h.once
  ready {j fn attempt newState} hop hj huntouched := by
    by_cases hji : j = i
    · subst hji
      exact absurd hj (hnotReady attempt newState)
    · rw [touched_watch, Function.update_of_ne hji] at huntouched
      exact h.ready hop hj huntouched

/-- A call ends with a right answer, and the value becomes what the answer stands for. -/
theorem Inv.finish {i : ι} {answer : Answer} (h : Inv payloadId ops init s) (hwrites : Writes s s')
    (hrunning : ∀ answer, s.phase i ≠ .done answer)
    (hright : (keyObject payloadId ops codec).right s.value (.call i answer))
    (heffect : (keyObject payloadId ops codec).effect s.value (.call i answer) = s'.value) :
    Inv payloadId ops init (s'.finish i answer) where
  legal := by
    rw [order_finish, hwrites.order, Object.legal_snoc, h.value]
    exact ⟨h.legal, hright⟩
  value := by rw [order_finish, hwrites.order, Object.after_snoc, h.value, heffect, value_finish]
  finished j ans := by
    rw [phase_finish, hwrites.phase, order_finish, hwrites.order, List.mem_append, List.mem_singleton]
    by_cases hj : j = i
    · subst hj
      rw [Function.update_self]
      constructor
      · rintro ⟨⟩
        exact Or.inr rfl
      · rintro (hmem | hlast)
        · exact absurd ((h.finished j ans).mpr hmem) (hrunning ans)
        · cases hlast
          rfl
    · rw [Function.update_of_ne hj, h.finished j ans]
      constructor
      · exact Or.inl
      · rintro (hmem | hlast)
        · exact hmem
        · cases hlast
          exact absurd rfl hj
  once := by
    rw [order_finish, hwrites.order, clients, List.filterMap_append, List.nodup_append]
    refine ⟨h.once, List.pairwise_singleton _ i, fun j hj k hk => ?_⟩
    obtain rfl : k = i := List.mem_singleton.mp hk
    rintro rfl
    obtain ⟨ans, hmem⟩ := mem_clients.mp hj
    exact hrunning ans ((h.finished j ans).mpr hmem)
  ready {j fn attempt newState} hop hj huntouched := by
    rw [touched_finish] at huntouched
    obtain ⟨hsame, huntouched'⟩ := hwrites.untouched huntouched
    rw [phase_finish, hwrites.phase] at hj
    rw [value_finish, hsame]
    by_cases hji : j = i
    · subst hji
      rw [Function.update_self] at hj
      cases hj
    · rw [Function.update_of_ne hji] at hj
      exact h.ready hop hj huntouched'

omit [DecidableEq ι] in
theorem Inv.expire {raw : codec.Token} (h : Inv payloadId ops init s) (hvalue : s.value = some raw) :
    Inv payloadId ops init { s.write none with order := s.order ++ [.expire] } where
  legal := by
    rw [Object.legal_snoc, h.value, hvalue]
    exact ⟨h.legal, Option.some_ne_none raw⟩
  value := by
    rw [Object.after_snoc]
    rfl
  finished j ans := by
    rw [List.mem_append, List.mem_singleton, ← h.finished j ans]
    exact ⟨Or.inl, fun hor => hor.resolve_right (by simp)⟩
  once := by
    rw [clients, List.filterMap_append]
    exact (List.append_nil _).symm ▸ h.once
  ready {j fn attempt newState} hop hj huntouched := by
    obtain ⟨hsame, huntouched'⟩ := (writes_write s none).untouched huntouched
    show (decodeValue codec payloadId none).bind fn = .ok newState
    rw [show none = s.value from hsame]
    exact h.ready hop hj huntouched'

theorem Inv.step (h : Inv payloadId ops init s) (hstep : Step payloadId ops s s') : Inv payloadId ops init s' := by
  have hrunning : ∀ {i : ι} {phase : Phase}, s.phase i = phase → (∀ answer, phase ≠ .done answer) →
      ∀ answer, s.phase i ≠ .done answer := fun hi hne answer heq => hne answer (hi.symm.trans heq)
  cases hstep with
  | @get i hop hi =>
    refine h.finish (Writes.refl s) (hrunning hi (by simp)) ?_ ?_
    · simp [keyObject, hop]
    · simp [keyObject, hop]
  | @save i state hop hi =>
    refine h.finish (writes_write s _) (hrunning hi (by simp)) ?_ ?_
    · simp [keyObject, hop]
    · simp [keyObject, hop]
  | @delete i hop hi =>
    refine h.finish (writes_write s _) (hrunning hi (by simp)) ?_ ?_
    · simp [keyObject, hop]
    · simp [keyObject, hop]
  | @watch i fn attempt hop hi hlt =>
    have hwatch : Inv payloadId ops init (s.watch i) := h.watch fun attempt newState hready => by
      rw [hi] at hready
      cases hready
    exact hwatch.moveTo (hrunning hi (by simp)) (by simp) (by simp)
  | @read i fn attempt newState hop hi hbind =>
    refine h.moveTo (hrunning hi (by simp)) (by simp) fun hop' hready => ?_
    obtain rfl := Op.transition.inj (hop.symm.trans hop')
    obtain ⟨-, rfl⟩ := Phase.ready.inj hready
    exact hbind
  | @raise i fn attempt e hop hi hbind =>
    refine h.finish (Writes.refl s) (hrunning hi (by simp)) ?_ ?_
    · simp [keyObject, hop, hbind]
    · simp [keyObject, hop]
  | @execute i fn attempt newState hop hi huntouched =>
    refine h.finish (writes_write s _) (hrunning hi (by simp)) ?_ ?_
    · simp [keyObject, hop, h.ready hop hi huntouched]
    · simp [keyObject, hop]
  | @abort i fn attempt newState hop hi htouched =>
    exact h.moveTo (hrunning hi (by simp)) (by simp) (by simp)
  | @giveUp i fn hop hi =>
    refine h.finish (Writes.refl s) (hrunning hi (by simp)) ?_ ?_
    · simp [keyObject, hop]
    · simp [keyObject, hop]
  | @expire raw hvalue => exact h.expire hvalue

theorem Inv.steps (h : Inv payloadId ops init s) (hsteps : Steps payloadId ops s s') : Inv payloadId ops init s' := by
  induction hsteps with
  | refl => exact h
  | tail _ hstep ih => exact ih.step hstep

theorem order_steps (hsteps : Steps payloadId ops s s') : ∃ rest, s'.order = s.order ++ rest := by
  induction hsteps with
  | refl => exact ⟨[], (List.append_nil _).symm⟩
  | tail _ hstep ih =>
    obtain ⟨rest, hrest⟩ := ih
    have hgrows : ∀ event, ∃ rest', s.order ++ rest ++ [event] = s.order ++ rest' := fun event =>
      ⟨rest ++ [event], List.append_assoc _ _ _⟩
    cases hstep with
    | get | save | delete | raise | execute | giveUp | expire =>
      simp only [order_finish, order_write, hrest]
      exact hgrows _
    | watch | read | abort => exact ⟨rest, hrest⟩

/-- What a transition does at its place in the order: it writes what its callback makes of the value that it finds
    there, or it raises and writes nothing. -/
def Atomic (payloadId : Str) (ops : ι → Op) (init : Option codec.Token) (before : List (Event ι)) (i : ι)
    (fn : TransitionFn) (answer : Answer) : Prop :=
  let found := (keyObject payloadId ops codec).after init before
  let left := (keyObject payloadId ops codec).after init (before ++ [.call i answer])
  match answer with
  | .ok newState => (decodeValue codec payloadId found).bind fn = .ok newState ∧ left = newState.map codec.encode
  | .error e => ((decodeValue codec payloadId found).bind fn = .error e ∨ e = contention) ∧ left = found

omit [DecidableEq ι] in
theorem atomic_of_right {before : List (Event ι)} {i : ι} {fn : TransitionFn} {answer : Answer}
    (hop : ops i = .transition fn)
    (h : (keyObject payloadId ops codec).right ((keyObject payloadId ops codec).after init before) (.call i answer)) :
    Atomic payloadId ops init before i fn answer := by
  simp only [keyObject, hop] at h
  unfold Atomic
  rw [Object.after_snoc]
  cases answer with
  | ok newState =>
    refine ⟨(h.resolve_right (by simp [contention])).symm, ?_⟩
    simp [keyObject, hop]
  | error e =>
    refine ⟨h.imp Eq.symm Except.error.inj, ?_⟩
    simp [keyObject, hop]

/-- The calls of any number of clients on one key have one order: it is a legal history of a key whose value they
    change one after the other, it has each call that ended, with its answer and once, and it puts a call that ended
    before one that began later. A transition acts in it at one place, or raises and writes nothing. -/
theorem linearizable {ι : Type} [DecidableEq ι] (codec : Codec) (payloadId : Str) (ops : ι → Op)
    (init : Option codec.Token) (s : System codec ι) (hsteps : Steps payloadId ops (System.start init) s) :
    (keyObject payloadId ops codec).Legal init s.order ∧
      (keyObject payloadId ops codec).after init s.order = s.value ∧
      (∀ i answer, s.phase i = .done answer ↔ .call i answer ∈ s.order) ∧
      (clients s.order).Nodup ∧
      (∀ i fn answer, ops i = .transition fn → s.phase i = .done answer → ∃ before after,
        s.order = before ++ .call i answer :: after ∧ Atomic payloadId ops init before i fn answer) ∧
      ∀ s' i j answer answer', Steps payloadId ops s s' → s.phase i = .done answer → s.phase j = .pending 0 →
        s'.phase j = .done answer' → ∃ before after, s'.order = before ++ after ∧ .call i answer ∈ before ∧
          j ∉ clients before ∧ .call j answer' ∈ after := by
  have hstart : Inv payloadId ops init (System.start init : System codec ι) := inv_start payloadId ops init
  have hinv := hstart.steps hsteps
  refine ⟨hinv.legal, hinv.value, hinv.finished, hinv.once, fun i fn answer hop hdone => ?_, ?_⟩
  · obtain ⟨before, after, horder⟩ := List.append_of_mem ((hinv.finished i answer).mp hdone)
    have hlegal := hinv.legal
    rw [horder] at hlegal
    exact ⟨before, after, horder, atomic_of_right hop hlegal.right⟩
  · intro s' i j answer answer' hlater hi hj hj'
    have hinv' := hinv.steps hlater
    obtain ⟨rest, hrest⟩ := order_steps hlater
    have hnot : j ∉ clients s.order := by
      intro hmem
      obtain ⟨ans, hcall⟩ := mem_clients.mp hmem
      have hdone := (hinv.finished j ans).mpr hcall
      rw [hj] at hdone
      cases hdone
    refine ⟨s.order, rest, hrest, (hinv.finished i answer).mp hi, hnot, ?_⟩
    have hmem := (hinv'.finished j answer').mp hj'
    rw [hrest] at hmem
    exact (List.mem_append.mp hmem).resolve_left fun h => hnot (mem_clients.mpr ⟨answer', h⟩)

end

/-- A transition that deletes the record, and a plain write. -/
def exampleOps : Bool → Op
  | true => .transition fun _ => .ok none
  | false => .save ⟨"k".toList, "h".toList, "b".toList, "*".toList, [], 0, [], .masked, ⟨0⟩, none, []⟩

/-- The write comes between the `GET` and the `EXEC` of the transition, which begins again and then succeeds. -/
theorem linearizable_contended : ∃ s : System Codec.plain Bool, s.phase true = .done (.ok none) ∧
    (keyObject "k".toList exampleOps Codec.plain).Legal none s.order ∧ s.order.length = 2 := by
  have first : Steps "k".toList exampleOps (System.start none : System Codec.plain Bool) _ :=
    (Relation.ReflTransGen.refl.tail (.watch (i := true) rfl rfl (Nat.succ_pos 4))).tail (.read (i := true) rfl rfl rfl)
  have second := (first.tail (.save (i := false) rfl rfl)).tail (.abort (i := true) rfl rfl rfl)
  have third := ((second.tail (.watch (i := true) rfl rfl (Nat.one_lt_succ_succ 3))).tail
    (.read (i := true) rfl rfl rfl)).tail (.execute (i := true) rfl rfl rfl)
  exact ⟨_, rfl, (linearizable Codec.plain "k".toList exampleOps none _ third).1, rfl⟩

end PiiProxy.RedisRestorationStore
