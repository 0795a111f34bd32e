import PiiProxy.Theorems.RedisAtomic

/-! # A call gives up only after five changes of its key

The error that a client is told to try again later is about other calls: while the call ran, its key was written or
expired at least once for each attempt. -/

namespace PiiProxy.ProcessService.Redis
open RedisRestorationStore Relation

section
variable {codec : Codec} {ι : Type} {calls : Calls ι} {s s' : System codec ι} {i : ι} {before : Nat}

/-! ### The errors that are none of contention -/

theorem found_ne_contention (calls : Calls ι) (s : System codec ι) (i : ι) : s.found calls i ≠ .error contention := by
  unfold System.found decodeValue
  cases s.values (calls.redisKey i) with
  | none =>
    intro h
    cases h
  | some raw =>
    dsimp only
    unfold Codec.decode
    cases (codec.decrypt raw).bind (RestorationState.fromJson codec (calls.key i)) with
    | none =>
      intro h
      cases h
    | some record =>
      intro h
      cases h

theorem outcomeFromState_ne_error (state : RestorationState) (e : PIIProxyError) :
    outcomeFromState (some state) ≠ .error e := by
  unfold outcomeFromState
  dsimp only
  split
  · intro h
    cases h
  · intro h
    cases h

/-- The callback raises this only if the preparation of a mask does. -/
theorem prepare_of_decide {n : Nat} {prepared current : Option RestorationState}
    (h : calls.decide i n prepared current = .error contention) : calls.prepare i n = .error contention := by
  cases current with
  | none =>
    cases prepared with
    | none => exact h
    | some record => cases h
  | some record =>
    unfold Callers.decide transition at h
    dsimp only at h
    split at h
    · cases h
    · split at h
      · split at h
        · cases h
        · split at h
          · unfold demaskState at h
            split at h
            · cases h
            · cases h
          · cases h
      · split at h
        · cases h
        · cases h

/-! ### The invariant -/

/-- The changes of its key that have aborted a call, or are about to. -/
def aborted (touched : Bool) : Phase → Nat
  | .idle | .preparing | .done _ => 0
  | .pending _ attempt => attempt
  | .watching _ attempt | .ready _ attempt _ => attempt + if touched then 1 else 0

/-- Enough changes of the key for a call to give up, or the preparation of a mask has raised the same error. -/
def MayGiveUp (calls : Calls ι) (i : ι) (before : Nat) (s : System codec ι) : Prop :=
  before + maxCasRetries ≤ s.changes.count (calls.redisKey i) ∨ ∃ n, calls.prepare i n = .error contention

/-- The call has been aborted at most as often as its key has changed since the given number of changes. -/
structure Contended (calls : Calls ι) (i : ι) (before : Nat) (s : System codec ι) : Prop where
  aborted : before + aborted (s.touched i) (s.phase i) ≤ s.changes.count (calls.redisKey i)
  gaveUp : s.phase i = .done (.error contention) → MayGiveUp calls i before s

/-- A change aborts a call once at most. -/
theorem Contended.write (h : Contended calls i before s) (redisKey : Str) (value : Option codec.Token) :
    Contended calls i before (s.write calls redisKey value) := by
  have hcount : (s.write calls redisKey value).changes.count (calls.redisKey i) =
      s.changes.count (calls.redisKey i) + if calls.redisKey i = redisKey then 1 else 0 := by
    rw [changes_write, List.count_cons]
    by_cases hredis : calls.redisKey i = redisKey
    · rw [if_pos hredis, if_pos (beq_iff_eq.mpr hredis.symm)]
    · rw [if_neg hredis, if_neg fun heq => hredis (beq_iff_eq.mp heq).symm]
  have haborted : Redis.aborted ((s.write calls redisKey value).touched i) (s.phase i) ≤
      Redis.aborted (s.touched i) (s.phase i) + if calls.redisKey i = redisKey then 1 else 0 := by
    rw [touched_write]
    dsimp only
    by_cases hredis : calls.redisKey i = redisKey
    · rw [if_pos hredis, if_pos hredis]
      cases s.phase i with
      | idle | preparing | done => exact Nat.zero_le _
      | pending prepared attempt => exact Nat.le_succ attempt
      | watching prepared attempt => simp [Redis.aborted]
      | ready prepared attempt state => simp [Redis.aborted]
    · rw [if_neg hredis, if_neg hredis]
      exact le_refl _
  have hbefore := h.aborted
  refine ⟨?_, fun hdone => ?_⟩
  · rw [phase_write, hcount]
    omega
  · rcases h.gaveUp hdone with hmany | hprepare
    · refine Or.inl ?_
      rw [hcount]
      omega
    · exact Or.inr hprepare

variable [DecidableEq ι] {j : ι} {phase : Phase}

theorem Contended.move (h : Contended calls i before s) (hphase : s'.phase = Function.update s.phase j phase)
    (htouched : j ≠ i → s'.touched i = s.touched i) (hchanges : s'.changes = s.changes)
    (hown : j = i → Redis.aborted (s'.touched i) phase ≤ Redis.aborted (s.touched i) (s.phase i))
    (hgaveUp : j = i → phase = .done (.error contention) → MayGiveUp calls i before s) : Contended calls i before s' := by
  have hmay : MayGiveUp calls i before s → MayGiveUp calls i before s' := by
    rw [MayGiveUp, MayGiveUp, hchanges]
    exact id
  have hbefore := h.aborted
  by_cases hji : j = i
  · subst hji
    have hself := hown rfl
    refine ⟨?_, fun hdone => ?_⟩
    · rw [hphase, Function.update_self, hchanges]
      omega
    · rw [hphase, Function.update_self] at hdone
      exact hmay (hgaveUp rfl hdone)
  · refine ⟨?_, fun hdone => ?_⟩
    · rw [hphase, Function.update_of_ne (Ne.symm hji), htouched hji, hchanges]
      exact hbefore
    · rw [hphase, Function.update_of_ne (Ne.symm hji)] at hdone
      exact hmay (h.gaveUp hdone)

/-- A call ends with an error that is none of contention. -/
theorem Contended.finish (h : Contended calls i before s) {answer : Answer} (hne : answer ≠ .error contention) :
    Contended calls i before (s.moveTo j (.done answer)) := by
  refine h.move rfl (fun _ => rfl) rfl (fun _ => Nat.zero_le _) fun _ hdone => ?_
  exact absurd (Phase.done.inj hdone) hne

theorem Contended.step (h : Contended calls i before s) (hstep : Step calls s s') : Contended calls i before s' := by
  cases hstep with
  | @reject j hj hunnamed => exact h.finish fun he => by cases he
  | @lookup j found hj hnamed hfound =>
    refine h.move rfl (fun _ => rfl) rfl (fun _ => ?_) fun _ hdone => ?_
    · split <;> exact Nat.zero_le _
    · split at hdone <;> cases hdone
  | @lookupFails j e hj hnamed hfound =>
    refine h.finish fun he => ?_
    rw [Except.error.inj he] at hfound
    exact found_ne_contention calls s j hfound
  | @prepare j record hj hprepare =>
    exact h.move rfl (fun _ => rfl) rfl (fun _ => Nat.zero_le _) fun _ hdone => by cases hdone
  | @prepareFails j e hj hprepare =>
    refine h.move rfl (fun _ => rfl) rfl (fun _ => Nat.zero_le _) fun hji hdone => Or.inr ⟨0, ?_⟩
    rw [← hji, hprepare, Except.error.inj (Phase.done.inj hdone)]
  | @watch j prepared attempt hj hlt =>
    refine h.move rfl (fun hji => Function.update_of_ne (Ne.symm hji) _ _) rfl (fun hji => ?_) fun _ hdone => by cases hdone
    subst hji
    rw [touched_moveTo, touched_watch, Function.update_self, hj]
    exact le_refl attempt
  | @read j prepared attempt current state hj hfound hdecide =>
    refine h.move rfl (fun _ => rfl) rfl (fun hji => ?_) fun _ hdone => by cases hdone
    rw [← hji, hj]
    exact le_refl _
  | @readFails j prepared attempt e hj hfound =>
    refine h.finish fun he => ?_
    rw [Except.error.inj he] at hfound
    exact found_ne_contention calls s j hfound
  | @refuse j prepared attempt current e hj hfound hdecide =>
    refine h.move rfl (fun _ => rfl) rfl (fun _ => Nat.zero_le _) fun hji hdone => Or.inr ⟨attempt, ?_⟩
    rw [Except.error.inj (Phase.done.inj hdone)] at hdecide
    rw [← hji]
    exact prepare_of_decide hdecide
  | @execute j prepared attempt state hj hfree httl =>
    exact (h.write (calls.redisKey j) (some (codec.encode state))).finish (outcomeFromState_ne_error state contention)
  | @executeFails j prepared attempt state hj hfree httl => exact h.finish fun he => by cases he
  | @abort j prepared attempt state hj htouched =>
    refine h.move rfl (fun _ => rfl) rfl (fun hji => ?_) fun _ hdone => by cases hdone
    subst hji
    rw [hj, htouched]
    exact le_refl _
  | @giveUp j prepared hj =>
    refine h.move rfl (fun _ => rfl) rfl (fun _ => Nat.zero_le _) fun hji _ => Or.inl ?_
    have hbefore := h.aborted
    rw [← hji] at hbefore ⊢
    rw [hj] at hbefore
    exact hbefore
  | @expire redisKey hsome => exact h.write redisKey none

/-- In any run over Redis, from any state: between the begin of a call and its giving up, its key was written or expired
    at least five times (if not the detectors themselves raise that error). -/
theorem contention_after_changes (calls : Calls ι) (i : ι) (s s' : System codec ι) (hidle : s.phase i = .idle)
    (hsteps : ReflTransGen (Step calls) s s') (hgaveUp : s'.phase i = .done (.error contention)) :
    s.changes.count (calls.redisKey i) + maxCasRetries ≤ s'.changes.count (calls.redisKey i) ∨
      ∃ n, calls.prepare i n = .error contention := by
  have hstart : Contended calls i (s.changes.count (calls.redisKey i)) s := by
    refine ⟨?_, fun hdone => ?_⟩
    · rw [hidle]
      exact le_refl _
    · rw [hidle] at hdone
      cases hdone
  have hend : Contended calls i (s.changes.count (calls.redisKey i)) s' := by
    clear hgaveUp
    induction hsteps with
    | refl => exact hstart
    | tail _ hstep ih => exact ih.step hstep
  exact hend.gaveUp hgaveUp

end

/-! ### Five writes in a row -/

/-- Any number of clients that send the same original. -/
def crowd : Calls Nat where
  digests := Digests.plain
  arounds _ _ := emailOnly
  request _ := exchange.request false
  client := redisClient

/-- Before any of them, and with the record there. -/
def crowdStart : System Codec.plain Nat :=
  (System.start Codec.plain Nat).write crowd (crowd.redisKey 0) (some (Codec.plain.encode exchanged))

/-- The first client has failed so many attempts, each by a client of its own; the others have not begun. -/
structure Crowded (n : Nat) (s : System Codec.plain Nat) : Prop where
  first : s.phase 0 = .pending none n
  found : s.found crowd 0 = .ok (some exchanged)
  others : ∀ i, n < i → s.phase i = .idle

theorem found_crowd {s : System Codec.plain Nat}
    (h : s.values (crowd.redisKey 0) = some (Codec.plain.encode exchanged)) : s.found crowd 0 = .ok (some exchanged) := by
  have hdecode : Codec.plain.decode (crowd.key 0) (Codec.plain.encode exchanged) = .ok exchanged :=
    Codec.decode_encode_self Codec.plain rfl
  rw [System.found, h, decodeValue, hdecode]
  rfl

theorem crowd_decide (i n : Nat) : crowd.decide i n none (some exchanged) = .ok exchanged := rfl

/-- One more attempt fails. -/
theorem Crowded.next {n : Nat} {s : System Codec.plain Nat} (h : Crowded n s) (hn : n < maxCasRetries) :
    ∃ s', ReflTransGen (Step crowd) s s' ∧ Crowded (n + 1) s' := by
  have hne : (n + 1 : Nat) ≠ 0 := Nat.succ_ne_zero n
  have hfound : ∀ i, s.found crowd i = .ok (some exchanged) := fun _ => h.found
  have hnamed : crowd.Named (n + 1) := (by decide : crowd.Named 0)
  have first := (ReflTransGen.single (Step.watch h.first hn)).tail
    (.read (phase_moveTo_self _ _ _) (hfound 0) (crowd_decide 0 n))
  have hidle : (((s.watch 0).moveTo 0 (.watching none n)).moveTo 0 (.ready none n exchanged)).phase (n + 1) = .idle := by
    rw [phase_moveTo, phase_moveTo, Function.update_of_ne hne, Function.update_of_ne hne]
    exact h.others (n + 1) (Nat.lt_succ_self n)
  -- The write of the other client tells the first one.
  obtain ⟨t, hsteps, hready, htouched, hkept, hothers⟩ : ∃ t, ReflTransGen (Step crowd) s t ∧
      t.phase 0 = .ready none n exchanged ∧ t.touched 0 = true ∧ t.found crowd 0 = .ok (some exchanged) ∧
      ∀ i, n + 1 < i → t.phase i = .idle := by
    refine ⟨_, (((first.tail (.lookup hidle hnamed (hfound (n + 1)))).tail
      (.watch (phase_moveTo_self _ _ _) (by decide))).tail
      (.read (phase_moveTo_self _ _ _) (hfound (n + 1)) (crowd_decide (n + 1) 0))).tail
      (.execute (phase_moveTo_self _ _ _) (Function.update_self _ _ _) (by decide)), ?_, ?_, ?_, fun i hi => ?_⟩
    · simp
    · rw [touched_moveTo, touched_write]
      exact if_pos rfl
    · refine found_crowd ?_
      rw [values_moveTo, values_write]
      exact Function.update_self (crowd.redisKey 0) _ _
    · have hi' : i ≠ n + 1 := Nat.ne_of_gt hi
      have hi₀ : i ≠ 0 := Nat.ne_of_gt (Nat.lt_of_le_of_lt (Nat.zero_le _) hi)
      simp [Function.update_of_ne hi', Function.update_of_ne hi₀, h.others i (Nat.lt_of_succ_lt hi)]
  refine ⟨_, hsteps.tail (.abort hready htouched), phase_moveTo_self _ _ _, hkept, fun i hi => ?_⟩
  have hi₀ : i ≠ 0 := Nat.ne_of_gt (Nat.lt_of_le_of_lt (Nat.zero_le _) hi)
  rw [phase_moveTo, Function.update_of_ne hi₀]
  exact hothers i hi

/-- The first client gives up after five attempts. -/
theorem crowd_gives_up : ∃ s, ReflTransGen (Step crowd) crowdStart s ∧ s.phase 0 = .done (.error contention) := by
  have hfound : crowdStart.found crowd 0 = .ok (some exchanged) := by
    refine found_crowd ?_
    rw [crowdStart, values_write]
    exact Function.update_self (crowd.redisKey 0) _ _
  have hrounds : ∀ n, n ≤ maxCasRetries → ∃ s, ReflTransGen (Step crowd) crowdStart s ∧ Crowded n s := by
    intro n
    induction n with
    | zero =>
      intro _
      refine ⟨_, .single (.lookup (i := 0) rfl (by decide) hfound), phase_moveTo_self _ _ _, hfound, fun i hi => ?_⟩
      rw [phase_moveTo, Function.update_of_ne (Nat.ne_of_gt hi)]
      rfl
    | succ n ih =>
      intro hn
      obtain ⟨s, hsteps, hcrowded⟩ := ih (Nat.le_of_succ_le hn)
      obtain ⟨s', hsteps', hcrowded'⟩ := hcrowded.next hn
      exact ⟨s', hsteps.trans hsteps', hcrowded'⟩
  obtain ⟨s, hsteps, hcrowded⟩ := hrounds maxCasRetries (le_refl _)
  exact ⟨_, hsteps.tail (.giveUp hcrowded.first), phase_moveTo_self _ _ _⟩

theorem contention_after_changes_crowd : ∃ s : System Codec.plain Nat, s.phase 0 = .done (.error contention) ∧
    (crowdStart.changes.count (crowd.redisKey 0) + maxCasRetries ≤ s.changes.count (crowd.redisKey 0) ∨
      ∃ n, crowd.prepare 0 n = .error contention) := by
  obtain ⟨s, hsteps, hdone⟩ := crowd_gives_up
  exact ⟨s, hdone, contention_after_changes crowd 0 crowdStart s rfl hsteps hdone⟩

end PiiProxy.ProcessService.Redis
