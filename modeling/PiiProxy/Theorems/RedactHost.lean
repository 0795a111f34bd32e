import PiiProxy.Scripts.RunPerformance

/-! # What is left of a URL in the report

The user is cut off at the last `@` of the URL, before the query and the fragment are: an `@` behind the host makes what
follows it pass for the host. -/

namespace PiiProxy.RunPerformance

/-- Neither `?` nor `#`. -/
def inPath (c : Char) : Bool := c != '?' && c != '#'

/-- `scheme://[userinfo@]host[:port][/path][?query][#fragment]` -/
structure Url where
  scheme : Str
  userinfo : Option Str
  host : Str
  port : Option Str
  path : Str
  query : Option Str
  fragment : Option Str
  scheme_chars : ':' ∉ scheme
  scheme_head : scheme.head? ≠ some '-'
  host_chars : ∀ c ∈ host, c ≠ '@' ∧ c ≠ '/' ∧ c ≠ '?' ∧ c ≠ '#'
  port_chars : ∀ p, port = some p → ∀ c ∈ p, c.isDigit = true
  path_head : path = [] ∨ path.head? = some '/'
  path_chars : ∀ c ∈ path, inPath c = true
  query_chars : ∀ q, query = some q → '#' ∉ q

namespace Url
variable (u v : Url)

def userPart : Str := (u.userinfo.map (· ++ ['@'])).getD []

/-- `host[:port]` -/
def hostport : Str := u.host ++ (u.port.map (':' :: ·)).getD []

/-- `[/path][?query][#fragment]` -/
def behind : Str := u.path ++ (u.query.map ('?' :: ·)).getD [] ++ (u.fragment.map ('#' :: ·)).getD []

def text : Str := u.scheme ++ "://".toList ++ (u.userPart ++ u.hostport ++ u.behind)

/-- The two differ in user, query and fragment at most. -/
def SamePublic : Prop := u.scheme = v.scheme ∧ u.host = v.host ∧ u.port = v.port ∧ u.path = v.path

/-- What passes for host and path: behind an `@` that comes after the host, the text up to the next `?` or `#`. -/
def shown : Str := if '@' ∈ u.behind then (afterLast '@' u.behind).takeWhile inPath else u.hostport ++ u.path

/-- A text that begins with host and port, and goes on with a path at most. -/
def BeginsWithHost (text : Str) : Prop := ∃ rest, text = u.hostport ++ rest ∧ (rest = [] ∨ rest.head? = some '/')

end Url

/-! ### The output -/

section
variable {u v : Url}

theorem cut_eq (rest : Str) :
    (let rest := if '?' ∈ rest then beforeFirst '?' rest else rest
      if '#' ∈ rest then beforeFirst '#' rest else rest) = rest.takeWhile inPath := by
  have hcut : ∀ (sep : Char) (l : Str), (if sep ∈ l then beforeFirst sep l else l) = l.takeWhile (· != sep) := by
    intro sep l
    split
    · rfl
    · rename_i hno
      symm
      rw [List.takeWhile_eq_self_iff]
      intro c hc
      rw [bne_iff_ne]
      rintro rfl
      exact hno hc
  dsimp only
  rw [hcut, hcut, List.takeWhile_takeWhile]
  congr 1
  funext c
  rw [Bool.eq_iff_iff]
  simp [inPath, and_comm]

theorem find_scheme (u : Url) : find "://".toList u.text = some u.scheme.length := by
  refine find_eq_some.mpr ⟨?_, ?_, fun j hj hfound => ?_⟩
  · rw [Url.text, List.append_assoc, List.drop_left]
    exact List.prefix_append _ _
  · rw [Url.text, List.append_assoc, List.length_append]
    exact Nat.le_add_right _ _
  · -- The separator begins with a colon, and the scheme has none.
    have hhead : (u.text.drop j)[0]? = some ':' := by
      obtain ⟨rest, hrest⟩ := hfound
      rw [← hrest]
      rfl
    rw [List.getElem?_drop, Nat.add_zero, Url.text, List.append_assoc, List.getElem?_append_left hj] at hhead
    exact u.scheme_chars (List.mem_of_getElem? hhead)

theorem redactHost_eq (u : Url) : redactHost u.text =
    u.scheme ++ "://".toList ++ (afterLast '@' (u.userPart ++ u.hostport ++ u.behind)).takeWhile inPath := by
  have htake : u.text.take u.scheme.length = u.scheme := by
    rw [Url.text, List.append_assoc]
    exact List.take_left
  have hdrop : u.text.drop (u.scheme.length + 3) = u.userPart ++ u.hostport ++ u.behind := by
    rw [Url.text]
    exact List.drop_left' (by rw [List.length_append]; rfl)
  have hafter : ∀ rest : Str, (if '@' ∈ rest then afterLast '@' rest else rest) = afterLast '@' rest := by
    intro rest
    split
    · rfl
    · rename_i hno
      exact (afterLast_of_not_mem hno).symm
  unfold redactHost
  rw [find_scheme]
  dsimp only
  rw [htake, hdrop, hafter]
  exact congrArg (u.scheme ++ "://".toList ++ ·) (cut_eq _)

theorem mem_hostport {c : Char} (hc : c ∈ u.hostport) : c ≠ '@' ∧ inPath c = true := by
  rcases List.mem_append.mp hc with hc | hc
  · obtain ⟨hat, -, hquery, hfragment⟩ := u.host_chars c hc
    exact ⟨hat, by simp [inPath, hquery, hfragment]⟩
  · cases hport : u.port with
    | none =>
      rw [hport] at hc
      cases hc
    | some p =>
      rw [hport] at hc
      rcases List.mem_cons.mp hc with rfl | hc
      · decide
      · have hdigit := u.port_chars p hport c hc
        constructor
        · rintro rfl
          exact absurd hdigit (by decide)
        · rw [inPath, Bool.and_eq_true, bne_iff_ne, bne_iff_ne]
          constructor
          · rintro rfl
            exact absurd hdigit (by decide)
          · rintro rfl
            exact absurd hdigit (by decide)

/-- Cut at the first `?` or `#`, what stands from the host on is host and path. -/
theorem takeWhile_hostport (u : Url) : (u.hostport ++ u.behind).takeWhile inPath = u.hostport ++ u.path := by
  have hend : ((u.query.map ('?' :: ·)).getD [] ++ (u.fragment.map ('#' :: ·)).getD []).takeWhile inPath = [] := by
    cases u.query with
    | some q => rfl
    | none =>
      cases u.fragment with
      | some f => rfl
      | none => rfl
  rw [Url.behind, List.append_assoc, List.takeWhile_append_of_pos fun c hc => (mem_hostport hc).2,
    List.takeWhile_append_of_pos u.path_chars, hend, List.append_nil]

theorem afterLast_rest (u : Url) : afterLast '@' (u.userPart ++ u.hostport ++ u.behind) =
    if '@' ∈ u.behind then afterLast '@' u.behind else u.hostport ++ u.behind := by
  split
  · rename_i hat
    exact afterLast_append_of_mem hat _
  · rename_i hno
    have hrest : '@' ∉ u.hostport ++ u.behind := by
      rw [List.mem_append, not_or]
      exact ⟨fun hc => (mem_hostport hc).1 rfl, hno⟩
    rw [List.append_assoc, Url.userPart]
    cases u.userinfo with
    | none => exact afterLast_of_not_mem hrest
    | some user =>
      show afterLast '@' ((user ++ ['@']) ++ _) = _
      rw [List.append_assoc]
      exact afterLast_append hrest

theorem redactHost_text (u : Url) : redactHost u.text = u.scheme ++ "://".toList ++ u.shown := by
  rw [redactHost_eq, afterLast_rest, Url.shown]
  split
  · rfl
  · rw [takeWhile_hostport]

/-! ### The parameters of the report -/

/-- An argument that is no flag. -/
def Plain (arg : Str) : Prop := arg ≠ "--host".toList ∧ hostPrefix.isPrefixOf arg = false ∧ arg ∉ safeFlags

theorem plain_text (u : Url) : Plain u.text := by
  have hhead : u.text.head? ≠ some '-' := by
    intro h
    rw [Url.text, List.append_assoc] at h
    cases hscheme : u.scheme with
    | nil =>
      rw [hscheme] at h
      cases h
    | cons c scheme =>
      rw [hscheme] at h
      exact u.scheme_head (by rw [hscheme]; exact h)
  have hsafe : ∀ flag ∈ safeFlags, flag.head? = some '-' := by decide
  refine ⟨fun h => hhead ?_, Bool.eq_false_iff.mpr fun h => hhead ?_, fun h => hhead (hsafe _ h)⟩
  · rw [h]
    rfl
  · obtain ⟨rest, hrest⟩ := List.isPrefixOf_iff_prefix.mp h
    rw [← hrest]
    rfl

theorem readArgs_plain {arg : Str} (h : Plain arg) (rest : List Str) (params : OrderedDict Str Str) :
    readArgs (arg :: rest) params = readArgs rest params := by
  obtain ⟨hhost, hprefix, hsafe⟩ := h
  cases rest with
  | nil => simp [readArgs, hprefix]
  | cons value rest => rw [readArgs, if_neg hhost, hprefix, if_neg Bool.false_ne_true, if_neg hsafe]

theorem readArgs_cons_congr {value : Str} {rest rest' : List Str}
    (hrest : ∀ params, readArgs rest params = readArgs rest' params)
    (hvalue : ∀ params, readArgs (value :: rest) params = readArgs (value :: rest') params) (arg : Str)
    (params : OrderedDict Str Str) :
    readArgs (arg :: value :: rest) params = readArgs (arg :: value :: rest') params := by
  have hstep : ∀ rest, readArgs (arg :: value :: rest) params =
      if arg = "--host".toList then readArgs rest (params.set "host".toList (redactHost value))
      else if hostPrefix.isPrefixOf arg then readArgs (value :: rest) (setHost params arg)
      else if arg ∈ safeFlags then readArgs rest (params.set (paramName arg) value)
      else readArgs (value :: rest) params := fun rest => by rw [readArgs]
  rw [hstep rest, hstep rest', hrest, hrest, hvalue, hvalue]

theorem readArgs_host (url : Str) (after : List Str) (params : OrderedDict Str Str) :
    readArgs ("--host".toList :: url :: after) params = readArgs after (params.set "host".toList (redactHost url)) := by
  rw [readArgs, if_pos rfl]

/-- A `--host` value matters only through what is left of it; a flag before it may have taken `--host` for its own
    value. -/
theorem readArgs_congr {url url' : Str} (hplain : Plain url) (hplain' : Plain url')
    (hsame : redactHost url = redactHost url') (before after : List Str) (params : OrderedDict Str Str) :
    readArgs (before ++ "--host".toList :: url :: after) params =
      readArgs (before ++ "--host".toList :: url' :: after) params := by
  have hhost : ∀ params, readArgs ("--host".toList :: url :: after) params =
      readArgs ("--host".toList :: url' :: after) params := fun params => by
    rw [readArgs_host, readArgs_host, hsame]
  have hskip : ∀ params, readArgs (url :: after) params = readArgs (url' :: after) params := fun params => by
    rw [readArgs_plain hplain, readArgs_plain hplain']
  induction before using List.twoStepInduction generalizing params with
  | nil => exact hhost params
  | singleton arg => exact readArgs_cons_congr hskip hhost arg params
  | cons_cons arg value before ih ih' => exact readArgs_cons_congr ih (ih' value) arg params

/-- The loop comes to the end of these arguments, whatever follows them. -/
def Complete (before : List Str) : Prop :=
  ∀ rest params, readArgs (before ++ rest) params = readArgs rest (readArgs before params)

theorem readArgs_hostEquals (url : Str) (after : List Str) (params : OrderedDict Str Str) :
    readArgs ((hostPrefix ++ url) :: after) params = readArgs after (params.set "host".toList (redactHost url)) := by
  have hset : setHost params (hostPrefix ++ url) = params.set "host".toList (redactHost url) := by
    rw [setHost, List.drop_left]
  have hprefix : hostPrefix.isPrefixOf (hostPrefix ++ url) = true :=
    List.isPrefixOf_iff_prefix.mpr (List.prefix_append _ _)
  have hne : hostPrefix ++ url ≠ "--host".toList := by
    intro h
    have hlength := congrArg List.length h
    rw [List.length_append] at hlength
    have : hostPrefix.length = 7 := rfl
    have : "--host".toList.length = 6 := rfl
    omega
  cases after with
  | nil =>
    show (if hostPrefix.isPrefixOf (hostPrefix ++ url) then setHost params _ else params) = _
    rw [if_pos hprefix, hset]
    rfl
  | cons value after => rw [readArgs, if_neg hne, if_pos hprefix, hset]

/-- What the report has of a command line is the same for two values of `--host`, in both its forms. -/
def SameReport (url url' : Str) : Prop :=
  (∀ before after, runParameters (before ++ "--host".toList :: url :: after) =
      runParameters (before ++ "--host".toList :: url' :: after)) ∧
    ∀ before, Complete before → ∀ after, runParameters (before ++ (hostPrefix ++ url) :: after) =
      runParameters (before ++ (hostPrefix ++ url') :: after)

theorem sameReport_of_redactHost (hsame : redactHost u.text = redactHost v.text) : SameReport u.text v.text := by
  refine ⟨fun before after => ?_, fun before hcomplete after => ?_⟩
  · exact readArgs_congr (plain_text u) (plain_text v) hsame before after OrderedDict.empty
  · rw [runParameters, runParameters, hcomplete, hcomplete, readArgs_hostEquals, readArgs_hostEquals, hsame]

/-! ### Two URLs that differ in secrets -/

theorem Url.SamePublic.hostport_eq (h : u.SamePublic v) : u.hostport = v.hostport := by
  obtain ⟨-, hhost, hport, -⟩ := h
  rw [Url.hostport, Url.hostport, hhost, hport]

theorem Url.shown_of_not_mem (h : '@' ∉ u.behind) : u.shown = u.hostport ++ u.path := if_neg h

end

/-- `http://h`, with a query. -/
def plainUrl (query : Option Str) (hquery : ∀ q, query = some q → '#' ∉ q) : Url where
  scheme := "http".toList
  userinfo := none
  host := "h".toList
  port := none
  path := []
  query
  fragment := none
  scheme_chars := by decide
  scheme_head := by decide
  host_chars := by simp
  port_chars := by rintro _ ⟨⟩
  path_head := Or.inl rfl
  path_chars := List.forall_mem_nil _
  query_chars := hquery

/-- `http://h` -/
def bare : Url := plainUrl none (by rintro _ ⟨⟩)

/-- `http://h?token=x@secret` -/
def withToken : Url := plainUrl (some "token=x@secret".toList) (by rintro _ ⟨⟩; decide)

end PiiProxy.RunPerformance
