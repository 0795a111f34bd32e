import PiiProxy.Processing.Lifecycle
import PiiProxy.Restoration.RedisClient

/-! `process` knows its store only through a lookup and a transition (`app/restoration/base.py`): the same call over the
    in-memory store and over Redis. -/

namespace PiiProxy.ProcessService

/-- What a store answers. -/
abbrev Found := Except PIIProxyError (Option RestorationState)

section
variable {σ : Type} (digests : Digests) (around : Surroundings) (request : Request)

/-- `process` over any store. The transition is told what the call has prepared. -/
def processOver (get : σ → Found × σ) (transition : Option RestorationState → σ → Found × σ) (store : σ) :
    Except PIIProxyError ProcessOutcome × σ :=
  if request.payload = [] ∨ request.payloadId = [] then
    (.error (.invalidPayload "payload and payload_id are required"), store)
  else
    match get store with
    | (.error e, store) => (.error e, store)
    | (.ok found, store) =>
      match prepareIfNew digests around request found with
      | .error e => (.error e, store)
      | .ok prepared =>
        match transition prepared store with
        | (.error e, store) => (.error e, store)
        | (.ok state, store) => (outcomeFromState state, store)

theorem process_eq {codec : Codec} (at_ : Readings) (store : InMemoryRestorationStore codec) :
    process digests around request at_ store =
      processOver digests around request (fun store => store.get (Request.key digests request) at_.lookup)
        (fun prepared store => store.transition (Request.key digests request)
          (callback digests around request prepared) at_.evict at_.read at_.write) store := by
  unfold process processOver
  dsimp only
  split
  · rfl
  · generalize store.get (Request.key digests request) at_.lookup = r
    obtain ⟨found, store₁⟩ := r
    cases found with
    | error e => rfl
    | ok found =>
      dsimp only
      cases prepareIfNew digests around request found with
      | error e => rfl
      | ok prepared =>
        dsimp only
        generalize store₁.transition (Request.key digests request) (callback digests around request prepared) at_.evict
          at_.read at_.write = r
        obtain ⟨answer, store₂⟩ := r
        cases answer with
        | error e => rfl
        | ok state => rfl

/-- The commands of a call over Redis. -/
structure Schedule (codec : Codec) where
  lookupAt : Time
  attempts : Nat → RedisRestorationStore.Attempt codec

/-- `process` over the Redis store. `arounds n` is what the call finds if it prepares the mask in the round `n`. -/
def processRedis {codec : Codec} (arounds : Nat → Surroundings) (client : RedisRestorationStore.Client)
    (schedule : Schedule codec) (db : RedisRestorationStore.Db codec) :
    Except PIIProxyError ProcessOutcome × RedisRestorationStore.Db codec :=
  processOver digests (arounds 0) request
    (fun db => (client.get (Request.key digests request) schedule.lookupAt db, db))
    (fun prepared => client.transition (Request.key digests request)
      (fun n => callback digests (arounds n) request prepared) schedule.attempts) db

section
variable {digests around request} {get : σ → Found × σ} {transition : Option RestorationState → σ → Found × σ} {store : σ}

/-- A call stops before the lookup, after it or in the transition, which then gives it its outcome. -/
theorem processOver_cases :
    (processOver digests around request get transition store).2 = store ∨
      (processOver digests around request get transition store).2 = (get store).2 ∨
      ∃ prepared, processOver digests around request get transition store =
        ((transition prepared (get store).2).1.bind outcomeFromState, (transition prepared (get store).2).2) := by
  unfold processOver
  split
  · exact Or.inl rfl
  · refine Or.inr ?_
    generalize get store = r
    obtain ⟨found, store₁⟩ := r
    cases found with
    | error e => exact Or.inl rfl
    | ok found =>
      dsimp only
      cases prepareIfNew digests around request found with
      | error e => exact Or.inl rfl
      | ok prepared =>
        refine Or.inr ⟨prepared, ?_⟩
        dsimp only
        generalize transition prepared store₁ = r
        obtain ⟨answer, store₂⟩ := r
        cases answer with
        | error e => rfl
        | ok state => rfl

/-- A call that raises in the transition: the transition has raised, or it has removed the record. -/
theorem processOver_error {e : PIIProxyError} (h : (processOver digests around request get transition store).1 = .error e) :
    (processOver digests around request get transition store).2 = store ∨
      (processOver digests around request get transition store).2 = (get store).2 ∨
      ∃ prepared, (processOver digests around request get transition store).2 =
          (transition prepared (get store).2).2 ∧
        ((∃ e, (transition prepared (get store).2).1 = .error e) ∨ (transition prepared (get store).2).1 = .ok none) := by
  rcases @processOver_cases σ digests around request get transition store with hafter | hafter | ⟨prepared, hresult⟩
  · exact Or.inl hafter
  · exact Or.inr (Or.inl hafter)
  · refine Or.inr (Or.inr ⟨prepared, congrArg Prod.snd hresult, ?_⟩)
    rw [hresult] at h
    cases hanswer : (transition prepared (get store).2).1 with
    | error e => exact Or.inl ⟨e, rfl⟩
    | ok state =>
      rw [hanswer] at h
      cases state with
      | none => exact Or.inr rfl
      | some state =>
        simp only [Except.bind, outcomeFromState] at h
        split at h
        · cases h
        · cases h

end

theorem callback_ne_none (prepared current : Option RestorationState) :
    callback digests around request prepared current ≠ .ok none := by
  unfold callback
  cases ProcessService.transition digests around current request.payload (Request.key digests request) request.policy
      prepared with
  | error e =>
    intro h
    cases h
  | ok state =>
    intro h
    cases h

end

end PiiProxy.ProcessService
