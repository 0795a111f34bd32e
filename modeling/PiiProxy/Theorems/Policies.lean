import PiiProxy.Api.Dependencies
import PiiProxy.Policies.Loader

/-! # Which policy a request gets

The files are loaded one after the other, and the first that cannot be read ends it. The consumer of a request is always a
normal form, so that a file whose name is none is never used. -/

namespace PiiProxy
open Api

/-! ### Consumer ids -/

theorem lowerLatin1_cases (c : Char) : lowerLatin1 c = c ∨ ∃ n < 223, c = Char.ofNat n := by
  unfold lowerLatin1
  split
  · rename_i hupper
    refine Or.inr ⟨c.toNat, ?_, (Char.ofNat_toNat c).symm⟩
    rcases hupper with ⟨-, hhi⟩ | ⟨-, hhi, -⟩
    · have hhi' : c.toNat ≤ 90 := hhi
      omega
    · have hhi' : c.toNat ≤ 222 := hhi
      omega
  · exact Or.inl rfl

/-- The characters up to there, tried one by one. -/
theorem lowerLatin1_table : ∀ n < 223, lowerLatin1 (lowerLatin1 (Char.ofNat n)) = lowerLatin1 (Char.ofNat n) ∧
    isspace (lowerLatin1 (Char.ofNat n)) = isspace (Char.ofNat n) := by decide +kernel

theorem lowerLatin1_idem (c : Char) :
    lowerLatin1 (lowerLatin1 c) = lowerLatin1 c ∧ isspace (lowerLatin1 c) = isspace c := by
  rcases lowerLatin1_cases c with hsame | ⟨n, hn, rfl⟩
  · rw [hsame, hsame]
    exact ⟨rfl, rfl⟩
  · exact lowerLatin1_table n hn

/-- What is stripped does not depend on the case. -/
theorem strip_map_lower (text : Str) : strip (text.map lowerLatin1) = (strip text).map lowerLatin1 := by
  have hspace : isspace ∘ lowerLatin1 = isspace := funext fun c => (lowerLatin1_idem c).2
  rw [strip, strip, List.dropWhile_map, List.rdropWhile, List.rdropWhile, ← List.map_reverse, List.dropWhile_map, hspace,
    List.map_reverse]

theorem strip_strip (text : Str) : strip (strip text) = strip text := by
  unfold strip
  generalize hl : text.dropWhile isspace = l
  have hstarts : l.rdropWhile isspace <+: l := List.rdropWhile_prefix isspace l
  have hkept : (l.rdropWhile isspace).dropWhile isspace = l.rdropWhile isspace := by
    cases hr : l.rdropWhile isspace with
    | nil => rfl
    | cons c rest =>
      obtain ⟨after, hafter⟩ := hr ▸ hstarts
      have hhead := List.head?_dropWhile_not isspace text
      rw [hl, ← hafter] at hhead
      exact List.dropWhile_cons_of_neg (by simpa using hhead)
  rw [hkept, List.rdropWhile_idempotent]

theorem normalizeConsumerId_idem (raw : Str) :
    normalizeConsumerId (normalizeConsumerId raw) = normalizeConsumerId raw := by
  rw [normalizeConsumerId, normalizeConsumerId, strip_map_lower, strip_strip, List.map_map]
  exact List.map_congr_left fun c _ => (lowerLatin1_idem c).1

/-- The id of a request is the default one, or a normal form. -/
theorem getConsumerId_normal (defaultConsumerId : Str) (header : Option Str) :
    getConsumerId defaultConsumerId header = defaultConsumerId ∨
      normalizeConsumerId (getConsumerId defaultConsumerId header) = getConsumerId defaultConsumerId header := by
  cases header with
  | none => exact Or.inl rfl
  | some raw =>
    unfold getConsumerId
    dsimp only
    split
    · exact Or.inl rfl
    · exact Or.inr (normalizeConsumerId_idem raw)

/-! ### The files -/

namespace FilePolicyProvider

/-- The last file of that name, and its policy. -/
def LastFile (files : List (Str × PolicyDocument)) (stem : Str) (policy : ConsumerPolicy) : Prop :=
  ∃ before document after, files = before ++ (stem, document) :: after ∧ stem ∉ after.map Prod.fst ∧
    loadFile stem document = .ok policy

/-- The first file that cannot be read. -/
def FirstFailure (files : List (Str × PolicyDocument)) (e : PIIProxyError) : Prop :=
  ∃ before file after, files = before ++ file :: after ∧
    (∀ f ∈ before, ∃ policy, loadFile f.1 f.2 = .ok policy) ∧ loadFile file.1 file.2 = .error e

section
variable {file : Str × PolicyDocument} {files : List (Str × PolicyDocument)} {stem : Str} {policy : ConsumerPolicy}
  {provider provider' : FilePolicyProvider} {e : PIIProxyError}

theorem lastFile_cons :
    LastFile (file :: files) stem policy ↔
      LastFile files stem policy ∨ stem ∉ files.map Prod.fst ∧ file.1 = stem ∧ loadFile stem file.2 = .ok policy := by
  constructor
  · rintro ⟨before, document, after, hfiles, hlast, hload⟩
    cases before with
    | nil =>
      obtain ⟨rfl, rfl⟩ := List.cons.inj hfiles
      exact Or.inr ⟨hlast, rfl, hload⟩
    | cons first before =>
      obtain ⟨rfl, rfl⟩ := List.cons.inj hfiles
      exact Or.inl ⟨before, document, after, rfl, hlast, hload⟩
  · rintro (⟨before, document, after, rfl, hlast, hload⟩ | ⟨hlast, rfl, hload⟩)
    · exact ⟨file :: before, document, after, rfl, hlast, hload⟩
    · exact ⟨[], file.2, files, rfl, hlast, hload⟩

theorem firstFailure_cons {policy : ConsumerPolicy} (h : loadFile file.1 file.2 = .ok policy) :
    FirstFailure (file :: files) e ↔ FirstFailure files e := by
  constructor
  · rintro ⟨before, file', after, hfiles, hbefore, herror⟩
    cases before with
    | nil =>
      obtain ⟨rfl, rfl⟩ := List.cons.inj hfiles
      rw [h] at herror
      cases herror
    | cons first before =>
      obtain ⟨rfl, rfl⟩ := List.cons.inj hfiles
      exact ⟨before, file', after, rfl, fun f hf => hbefore f (List.mem_cons_of_mem _ hf), herror⟩
  · rintro ⟨before, file', after, rfl, hbefore, herror⟩
    refine ⟨file :: before, file', after, rfl, fun f hf => ?_, herror⟩
    rcases List.mem_cons.mp hf with rfl | hf
    · exact ⟨policy, h⟩
    · exact hbefore f hf

theorem FirstFailure.unique {e' : PIIProxyError} (h : FirstFailure files e) (h' : FirstFailure files e') : e = e' := by
  induction files with
  | nil =>
    obtain ⟨before, file, after, hfiles, -⟩ := h
    cases before <;> cases hfiles
  | cons file files ih =>
    cases hload : loadFile file.1 file.2 with
    | ok policy => exact ih ((firstFailure_cons hload).mp h) ((firstFailure_cons hload).mp h')
    | error e₀ =>
      have hfirst : ∀ {e}, FirstFailure (file :: files) e → e₀ = e := by
        rintro e ⟨before, file', after, hfiles, hbefore, herror⟩
        cases before with
        | nil =>
          obtain ⟨rfl, rfl⟩ := List.cons.inj hfiles
          exact Except.error.inj (hload.symm.trans herror)
        | cons first before =>
          obtain ⟨rfl, rfl⟩ := List.cons.inj hfiles
          obtain ⟨policy, hpolicy⟩ := hbefore _ List.mem_cons_self
          exact absurd (hload.symm.trans hpolicy) (by simp)
      exact (hfirst h).symm.trans (hfirst h')

theorem get?_add (provider : FilePolicyProvider) (policy : ConsumerPolicy) (stem : Str) :
    (provider.add policy).policies.get? stem =
      if stem = policy.consumerId then some policy else provider.policies.get? stem := by
  rw [add, OrderedDict.get?_set]

/-- The loop, from any provider. -/
theorem loadAll_loop (files : List (Str × PolicyDocument)) (provider : FilePolicyProvider) :
    match files.foldlM (fun provider file => (loadFile file.1 file.2).map provider.add) provider with
    | .error e => FirstFailure files e
    | .ok loaded => (∀ e, ¬ FirstFailure files e) ∧ ∀ stem policy, loaded.policies.get? stem = some policy ↔
        LastFile files stem policy ∨ stem ∉ files.map Prod.fst ∧ provider.policies.get? stem = some policy := by
  induction files generalizing provider with
  | nil =>
    refine ⟨?_, fun stem policy => ?_⟩
    · rintro e ⟨before, file, after, hfiles, -⟩
      cases before <;> cases hfiles
    · constructor
      · exact fun h => Or.inr ⟨List.not_mem_nil, h⟩
      · rintro (⟨before, document, after, hfiles, -⟩ | ⟨-, h⟩)
        · cases before <;> cases hfiles
        · exact h
  | cons file files ih =>
    rw [List.foldlM_cons]
    cases hload : loadFile file.1 file.2 with
    | error e =>
      show FirstFailure (file :: files) e
      exact ⟨[], file, files, rfl, fun f hf => absurd hf List.not_mem_nil, hload⟩
    | ok policy =>
      have hrest := ih (provider.add policy)
      have hstem := consumerId_of_loadFile hload
      show match files.foldlM (fun provider file => (loadFile file.1 file.2).map provider.add) (provider.add policy) with
        | .error e => FirstFailure (file :: files) e
        | .ok loaded => _
      generalize files.foldlM (fun provider file => (loadFile file.1 file.2).map provider.add) (provider.add policy) = r at hrest
      cases r with
      | error e => exact (firstFailure_cons hload).mpr hrest
      | ok loaded =>
        obtain ⟨hfine, hget⟩ := hrest
        refine ⟨fun e he => hfine e ((firstFailure_cons hload).mp he), fun stem policy' => ?_⟩
        rw [hget, lastFile_cons, get?_add, hstem, List.map_cons, List.mem_cons, not_or]
        by_cases hsame : stem = file.1
        · subst hsame
          rw [if_pos rfl, hload, Option.some.injEq, Except.ok.injEq]
          constructor
          · rintro (hlast | ⟨hlast, hpolicy⟩)
            · exact Or.inl (Or.inl hlast)
            · exact Or.inl (Or.inr ⟨hlast, rfl, hpolicy⟩)
          · rintro ((hlast | ⟨hlast, -, hpolicy⟩) | ⟨⟨hne, -⟩, -⟩)
            · exact Or.inl hlast
            · exact Or.inr ⟨hlast, hpolicy⟩
            · exact absurd rfl hne
        · rw [if_neg hsame]
          constructor
          · rintro (hlast | ⟨hlast, hbefore⟩)
            · exact Or.inl (Or.inl hlast)
            · exact Or.inr ⟨⟨hsame, hlast⟩, hbefore⟩
          · rintro ((hlast | ⟨-, hstem', -⟩) | ⟨⟨-, hlast⟩, hbefore⟩)
            · exact Or.inl hlast
            · exact absurd hstem'.symm hsame
            · exact Or.inr ⟨hlast, hbefore⟩

end

/-- Whatever the files: loading ends with the error of the first that cannot be read, or all can be. Then a request gets the
    policy of the last file that has the consumer's name, if that is enabled, and none else. No header reaches a file
    whose name is neither the default one nor a normal form. -/
theorem policies_served (files : List (Str × PolicyDocument)) :
    (∀ e, loadAll files = .error e ↔ FirstFailure files e) ∧
      ∀ provider, loadAll files = .ok provider → ∀ defaultConsumerId header policy,
        (provider.getPolicy (getConsumerId defaultConsumerId header) = .ok policy ↔
          LastFile files (getConsumerId defaultConsumerId header) policy ∧ policy.enabled = true) ∧
        (provider.getPolicy (getConsumerId defaultConsumerId header) = .ok policy →
          policy.consumerId = defaultConsumerId ∨ normalizeConsumerId policy.consumerId = policy.consumerId) := by
  have hloop := loadAll_loop files empty
  rw [← loadAll] at hloop
  refine ⟨fun e => ⟨fun herror => ?_, fun hfailure => ?_⟩, fun provider hprovider defaultConsumerId header policy => ?_⟩
  · rw [herror] at hloop
    exact hloop
  · cases hloaded : loadAll files with
    | ok provider =>
      rw [hloaded] at hloop
      exact absurd hfailure (hloop.1 e)
    | error e' =>
      rw [hloaded] at hloop
      rw [FirstFailure.unique hloop hfailure]
  · rw [hprovider] at hloop
    obtain ⟨-, hget⟩ := hloop
    constructor
    · rw [getPolicy_eq_ok, hget]
      refine and_congr_left fun _ => ⟨fun h => ?_, Or.inl⟩
      rcases h with hlast | ⟨-, hempty⟩
      · exact hlast
      · cases hempty
    · intro hpolicy
      rw [consumerId_of_getPolicy hpolicy]
      exact getConsumerId_normal defaultConsumerId header

end FilePolicyProvider

end PiiProxy
