import LyraUpgrade.Core.Sanitize

/-!
# The masks

What each mask replaces, as sites of `Rewrites`, and the rule by which a property of a pass is
proved: it holds where there is nothing to mask, and it goes over one piece that is masked
(`maskHomePaths_rule`, `maskUrls_rule`, `maskAssignment_rule`).
-/

namespace LyraUpgrade

open Encoding

/-- Nothing, or a character with a property and more. -/
def StopsAt (p : Char → Prop) (rest : List Char) : Prop := ∀ c ∈ rest.head?, p c

/-- Where a text is cut at the first character without a property. -/
theorem exists_span (f : Char → Bool) (cs : List Char) : ∃ value rest, cs = value ++ rest ∧
    cs.takeWhile f = value ∧ cs.dropWhile f = rest ∧ (∀ c ∈ value, f c = true) ∧
    StopsAt (fun c => f c = false) rest := by
  refine ⟨_, _, List.takeWhile_append_dropWhile.symm, rfl, rfl,
    fun _ hc => List.mem_takeWhile_imp hc, fun c hc => ?_⟩
  have hne : cs.dropWhile f ≠ [] := by
    intro hnil
    rw [hnil] at hc
    cases hc
  have hhead := List.head_dropWhile_not f hne
  rw [List.head?_eq_some_head hne] at hc
  cases hc
  exact hhead

/-- The beginnings of a URL. -/
def IsScheme (scheme : List Char) : Prop :=
  scheme = "http://".toList ∨ scheme = "https://".toList

/-- What is left of a URL behind its scheme. -/
def maskRest (url : List Char) : List Char :=
  let authority := url.takeWhile (· ≠ '/')
  let tail := url.dropWhile (· ≠ '/')
  let kept := tail.takeWhile fun c => !(c == '?' || c == '#')
  (if '@' ∈ authority then "***@".toList ++ lastPiece '@' authority else authority) ++
    (kept ++ if kept.length < tail.length then "?***".toList else [])

theorem schemeEnd_eq {scheme : List Char} (h : IsScheme scheme) (url : List Char) :
    ((find "://".toList (scheme ++ url)).map (· + 3)).getD 0 = scheme.length := by
  rcases h with rfl | rfl
  · simp [find]
  · simp [find]

theorem maskUrl_scheme {scheme : List Char} (h : IsScheme scheme) (url : List Char) :
    maskUrl (scheme ++ url) = scheme ++ maskRest url := by
  rw [maskUrl, schemeEnd_eq h, List.take_left, List.drop_left]
  rfl

/-- The URLs `mask_urls` finds, each without its scheme. -/
def urlsOf (input : List Char) : List (List Char) :=
  match _h : findUrl input with
  | none => []
  | some start =>
      let url := (input.drop start).takeWhile (!isWhitespace ·)
      url.drop (((find "://".toList url).map (· + 3)).getD 0) ::
        urlsOf ((input.drop start).dropWhile (!isWhitespace ·))
termination_by input.length
decreasing_by
  exact length_dropWhile_findUrl _h

/-! ## One piece after the other -/

section

variable {motive : List Char → List Char → Prop}

/-- A property of `mask_home_paths`: of a text without a home directory, and of one more. -/
theorem maskHomePaths_rule (done : ∀ xs, ¬ "/home/".toList <:+: xs → motive xs xs)
    (step : ∀ pre user rest out,
      (∀ b c, pre ++ ("/home/".toList ++ (user ++ rest)) = b ++ ("/home/".toList ++ c) →
        pre.length ≤ b.length) →
      (∀ c ∈ user, c ≠ '/' ∧ isWhitespace c = false) →
      StopsAt (fun c => c = '/' ∨ isWhitespace c) rest → motive rest out →
      motive (pre ++ ("/home/".toList ++ (user ++ rest)))
        (pre ++ ("/home/".toList ++ ("<user>".toList ++ out))))
    (input : List Char) : motive input (maskHomePaths input) := by
  induction hn : input.length using Nat.strong_induction_on generalizing input with
  | _ n ih =>
      subst hn
      rw [maskHomePaths.eq_def]
      split
      · rename_i hnone
        exact done input (find_eq_none.mp hnone)
      · rename_i position hsome
        obtain ⟨pre, tail, rfl, rfl, hfirst⟩ := find_eq_some hsome
        obtain ⟨user, rest, rfl, -, hdrop, huser, hstops⟩ :=
          exists_span (fun c => !(c == '/' || isWhitespace c)) tail
        rw [← List.drop_drop, List.drop_left, List.drop_left, List.take_left, hdrop]
        have hshorter : rest.length < (pre ++ ("/home/".toList ++ (user ++ rest))).length := by
          have : 0 < "/home/".toList.length := by decide
          simp only [List.length_append]
          omega
        refine step pre user rest _ hfirst (fun c hc => ?_) (fun c hc => ?_)
          (ih _ hshorter rest rfl)
        · simpa using huser c hc
        · exact Classical.or_iff_not_imp_left.mpr (by simpa using hstops c hc)

/-- A property of the loop of `mask_assignments` for one key. -/
theorem maskAssignment_rule (key : SecretKey)
    (done : ∀ xs, ¬ key.1 <:+: xs.map Char.toLower → motive xs xs)
    (step : ∀ pre name value rest out, name.map Char.toLower = key.1 →
      (∀ b v c, pre ++ (name ++ (value ++ rest)) = b ++ (v ++ c) → v.map Char.toLower = key.1 →
        pre.length ≤ b.length) →
      (∀ c ∈ value, endsValue c = false) → StopsAt (fun c => endsValue c) rest →
      motive rest out →
      motive (pre ++ (name ++ (value ++ rest))) (pre ++ (name ++ ("***".toList ++ out))))
    (input : List Char) : motive input (maskAssignment key input) := by
  induction hn : input.length using Nat.strong_induction_on generalizing input with
  | _ n ih =>
      subst hn
      rw [maskAssignment.eq_def]
      split
      · rename_i hnone
        exact done input (find_eq_none.mp hnone)
      · rename_i position hsome
        obtain ⟨lower, _, hlower, rfl, hfirst⟩ := find_eq_some hsome
        -- the same place in the text itself
        obtain ⟨pre, rest₁, rfl, rfl, hrest₁⟩ := List.map_eq_append_iff.mp hlower
        obtain ⟨name, tail, rfl, hname, -⟩ := List.map_eq_append_iff.mp hrest₁
        obtain ⟨value, rest, rfl, -, hdrop, hvalue, hstops⟩ := exists_span (!endsValue ·) tail
        have hlength : name.length = key.1.length := by rw [← hname, List.length_map]
        rw [List.length_map, ← List.drop_drop, List.drop_left, ← hlength, List.drop_left, hdrop,
          ← List.append_assoc pre, ← List.length_append, List.take_left, List.append_assoc,
          List.append_assoc]
        have hshorter : rest.length < (pre ++ (name ++ (value ++ rest))).length := by
          have := key.2
          simp only [List.length_append]
          omega
        refine step pre name value rest _ hname (fun b v c hsplit hv => ?_) (fun c hc => ?_)
          (fun c hc => ?_) (ih _ hshorter rest rfl)
        · have hplace := hfirst (b.map Char.toLower) (c.map Char.toLower) (by
            rw [hsplit, List.map_append, List.map_append, hv])
          rwa [List.length_map, List.length_map] at hplace
        · simpa using hvalue c hc
        · simpa using hstops c hc

/-- The first place of either scheme. -/
theorem findUrl_split {input : List Char} {start : ℕ} (h : findUrl input = some start) :
    ∃ pre scheme tail, input = pre ++ (scheme ++ tail) ∧ pre.length = start ∧ IsScheme scheme ∧
      ∀ b s c, input = b ++ (s ++ c) → IsScheme s → pre.length ≤ b.length := by
  obtain ⟨hfound, hhttp, hhttps⟩ := findUrl_eq_some h
  have hfirst : ∀ b s c, input = b ++ (s ++ c) → IsScheme s → start ≤ b.length := by
    intro b s c hsplit hs
    have hplace : ∃ n, find s input = some n ∧ n ≤ b.length := by
      cases hfind : find s input with
      | none => exact absurd ⟨b, c, by rw [hsplit, List.append_assoc]⟩ (find_eq_none.mp hfind)
      | some n =>
          obtain ⟨_, _, -, -, hleast⟩ := find_eq_some hfind
          exact ⟨n, rfl, hleast b c hsplit⟩
    obtain ⟨n, hn, hle⟩ := hplace
    rcases hs with rfl | rfl
    · exact Nat.le_trans (hhttp n hn) hle
    · exact Nat.le_trans (hhttps n hn) hle
  rcases hfound with hfound | hfound
  · obtain ⟨pre, tail, hsplit, rfl, -⟩ := find_eq_some hfound
    exact ⟨pre, _, tail, hsplit, rfl, .inl rfl, hfirst⟩
  · obtain ⟨pre, tail, hsplit, rfl, -⟩ := find_eq_some hfound
    exact ⟨pre, _, tail, hsplit, rfl, .inr rfl, hfirst⟩

/-- There is no place if neither scheme occurs. -/
theorem not_infix_of_findUrl {input scheme : List Char} (h : findUrl input = none)
    (hscheme : IsScheme scheme) : ¬ scheme <:+: input := by
  rw [findUrl] at h
  rcases hhttp : find "http://".toList input with _ | http <;>
    rcases hhttps : find "https://".toList input with _ | https <;>
    simp only [hhttp, hhttps] at h
  · rcases hscheme with rfl | rfl
    · exact find_eq_none.mp hhttp
    · exact find_eq_none.mp hhttps
  all_goals cases h

theorem isWhitespace_scheme {scheme : List Char} (h : IsScheme scheme) :
    ∀ c ∈ scheme, (!isWhitespace c) = true := by
  rcases h with rfl | rfl <;> decide

/-- A property of `mask_urls`, and of the URLs it finds. -/
theorem maskUrls_rule {motive : List Char → List (List Char) → List Char → Prop}
    (done : ∀ xs, (∀ scheme, IsScheme scheme → ¬ scheme <:+: xs) → motive xs [] xs)
    (step : ∀ pre scheme url rest urls out, IsScheme scheme →
      (∀ b s c, pre ++ (scheme ++ (url ++ rest)) = b ++ (s ++ c) → IsScheme s →
        pre.length ≤ b.length) →
      (∀ c ∈ url, isWhitespace c = false) → StopsAt (fun c => isWhitespace c) rest →
      motive rest urls out →
      motive (pre ++ (scheme ++ (url ++ rest))) (url :: urls)
        (pre ++ (scheme ++ (maskRest url ++ out))))
    (input : List Char) : motive input (urlsOf input) (maskUrls input) := by
  induction hn : input.length using Nat.strong_induction_on generalizing input with
  | _ n ih =>
      subst hn
      rw [maskUrls.eq_def, urlsOf.eq_def]
      cases hfind : findUrl input with
      | none => exact done input fun scheme hscheme => not_infix_of_findUrl hfind hscheme
      | some position =>
        obtain ⟨pre, scheme, tail, rfl, rfl, hscheme, hfirst⟩ := findUrl_split hfind
        obtain ⟨url, rest, rfl, htake, hdrop, hurl, hstops⟩ := exists_span (!isWhitespace ·) tail
        have hblank := isWhitespace_scheme hscheme
        dsimp only
        rw [List.drop_left, List.take_left, List.takeWhile_append_of_pos hblank,
          List.dropWhile_append_of_pos hblank, htake, hdrop, maskUrl_scheme hscheme,
          schemeEnd_eq hscheme, List.drop_left, List.append_assoc]
        have hshorter : rest.length < (pre ++ (scheme ++ (url ++ rest))).length := by
          have : 0 < scheme.length := by rcases hscheme with rfl | rfl <;> decide
          simp only [List.length_append]
          omega
        refine step pre scheme url rest _ _ hscheme hfirst (fun c hc => ?_) (fun c hc => ?_)
          (ih _ hshorter rest rfl)
        · simpa using hurl c hc
        · simpa using hstops c hc

end

/-! ## The pieces that are masked -/

/-- A user name. -/
structure HomeSite (before old rest mask : List Char) : Prop where
  mask : mask = "<user>".toList
  before : "/home/".toList <:+ before
  rest : StopsAt (fun c => c = '/' ∨ isWhitespace c) rest

/-- The user information of a URL, or what is behind its path. -/
inductive UrlSite (before old rest mask : List Char) : Prop
  | userinfo (hmask : mask = "***@".toList) (hbefore : "://".toList <:+ before)
  | query (hmask : mask = "?***".toList) (hold : ∃ c ∈ old.head?, c = '?' ∨ c = '#')

/-- The value of an assignment. -/
structure AssignmentSite (key : SecretKey) (before old rest mask : List Char) : Prop where
  mask : mask = "***".toList
  before : ∃ name, name.map Char.toLower = key.1 ∧ name <:+ before
  old : ∀ c ∈ old, endsValue c = false
  rest : StopsAt (fun c => endsValue c) rest

theorem maskHomePaths_rewrites (before input : List Char) :
    Rewrites HomeSite before input (maskHomePaths input) := by
  refine maskHomePaths_rule (motive := fun input out => ∀ before, Rewrites HomeSite before input out)
    (fun xs _ before => .done before xs) ?_ input before
  intro pre user rest out _ _ hstops hrest before
  refine Rewrites.append_left (Rewrites.append_left (.here ⟨rfl, ?_, hstops⟩ (hrest _)))
  exact List.suffix_append ..

theorem maskAssignment_rewrites (key : SecretKey) (before input : List Char) :
    Rewrites (AssignmentSite key) before input (maskAssignment key input) := by
  refine maskAssignment_rule (motive := fun input out =>
    ∀ before, Rewrites (AssignmentSite key) before input out) key
    (fun xs _ before => .done before xs) ?_ input before
  intro pre name value rest out hname _ hvalue hstops hrest before
  refine Rewrites.append_left (Rewrites.append_left
    (.here ⟨rfl, ⟨name, hname, ?_⟩, hvalue, hstops⟩ (hrest _)))
  exact List.suffix_append ..

/-- The host of a URL behind its scheme, as `mask_url` finds it. -/
def urlHost (url : List Char) : List Char := lastPiece '@' (url.takeWhile (· ≠ '/'))

/-- The path of a URL behind its scheme, as `mask_url` finds it. -/
def urlPath (url : List Char) : List Char :=
  (url.dropWhile (· ≠ '/')).takeWhile fun c => !(c == '?' || c == '#')

/-- The parts of a URL behind its scheme, and what becomes of them. -/
structure UrlParts (url userinfo host kept query userMask queryMask : List Char) : Prop where
  split : url = userinfo ++ (host ++ (kept ++ query))
  masked : maskRest url = userMask ++ (host ++ (kept ++ queryMask))
  host_eq : host = urlHost url
  kept_eq : kept = urlPath url
  isUser : (userinfo = [] ∧ userMask = []) ∨
    ((∃ user, userinfo = user ++ ['@']) ∧ userMask = "***@".toList)
  isHost : ∀ c ∈ host, c ≠ '/' ∧ c ≠ '@'
  noSlash : '/' ∉ userinfo
  isPath : (kept = [] ∧ query = []) ∨ kept.head? = some '/'
  noQuery : ∀ c ∈ kept, c ≠ '?' ∧ c ≠ '#'
  isQuery : (query = [] ∧ queryMask = []) ∨
    ((∃ c ∈ query.head?, c = '?' ∨ c = '#') ∧ queryMask = "?***".toList)

/-- The text behind the last `@`. -/
theorem exists_lastPiece {stop : Char} {cs : List Char} (h : stop ∈ cs) :
    ∃ user, cs = user ++ (stop :: lastPiece stop cs) ∧ stop ∉ lastPiece stop cs := by
  obtain ⟨value, rest, hsplit, htake, -, hvalue, hstops⟩ :=
    exists_span (fun c => decide (c ≠ stop)) cs.reverse
  have hpiece : lastPiece stop cs = value.reverse := by rw [lastPiece, htake]
  have hnot : stop ∉ value := by
    intro hmem
    simpa using hvalue stop hmem
  cases rest with
  | nil =>
      rw [List.append_nil] at hsplit
      rw [← List.mem_reverse, hsplit] at h
      exact absurd h hnot
  | cons c rest =>
      have hc : c = stop := by simpa using hstops c rfl
      subst hc
      refine ⟨rest.reverse, ?_, by rwa [hpiece, List.mem_reverse]⟩
      rw [hpiece, ← List.reverse_reverse cs, hsplit]
      simp

theorem lastPiece_of_notMem {stop : Char} {cs : List Char} (h : stop ∉ cs) :
    lastPiece stop cs = cs := by
  have hall : ∀ c ∈ cs.reverse, (decide (c ≠ stop)) = true := by
    intro c hc
    refine decide_eq_true ?_
    rintro rfl
    exact h (List.mem_reverse.mp hc)
  rw [lastPiece, List.takeWhile_eq_self_iff.mpr hall, List.reverse_reverse]

theorem exists_urlParts (url : List Char) : ∃ userinfo host kept query userMask queryMask,
    UrlParts url userinfo host kept query userMask queryMask := by
  obtain ⟨authority, tail, hurl, hauthority, htail, hslash, hpath⟩ :=
    exists_span (fun c => decide (c ≠ '/')) url
  obtain ⟨kept, query, hsplit, hkept, -, hfree, hquery⟩ :=
    exists_span (fun c => !(c == '?' || c == '#')) tail
  have hmasked : maskRest url =
      (if '@' ∈ authority then "***@".toList ++ lastPiece '@' authority else authority) ++
        (kept ++ if kept.length < tail.length then "?***".toList else []) := by
    rw [maskRest, hauthority, htail, hkept]
  have hslash' : '/' ∉ authority := by
    intro hmem
    simpa using hslash '/' hmem
  obtain ⟨userinfo, host, userMask, hparts, hlast, hmask, huser, hhost⟩ :
      ∃ userinfo host userMask, authority = userinfo ++ host ∧ host = lastPiece '@' authority ∧
      (if '@' ∈ authority then "***@".toList ++ lastPiece '@' authority else authority) =
        userMask ++ host ∧
      ((userinfo = [] ∧ userMask = []) ∨
        ((∃ user, userinfo = user ++ ['@']) ∧ userMask = "***@".toList)) ∧ '@' ∉ host := by
    by_cases hat : '@' ∈ authority
    · obtain ⟨user, hsame, hnot⟩ := exists_lastPiece hat
      refine ⟨user ++ ['@'], lastPiece '@' authority, _, by simpa using hsame, rfl, if_pos hat,
        .inr ⟨⟨user, rfl⟩, rfl⟩, hnot⟩
    · exact ⟨[], authority, [], rfl, (lastPiece_of_notMem hat).symm, if_neg hat,
        .inl ⟨rfl, rfl⟩, hat⟩
  rw [hparts, List.mem_append, not_or] at hslash'
  have hhead : tail = [] ∨ tail.head? = some '/' := by
    cases tail with
    | nil => exact .inl rfl
    | cons c tail =>
        have hc : c = '/' := by simpa using hpath c rfl
        exact .inr (by rw [hc]; rfl)
  have hkeptHead : (kept = [] ∧ query = []) ∨ kept.head? = some '/' := by
    rw [hsplit] at hhead
    rcases hhead with hnil | hhead
    · exact .inl (List.append_eq_nil_iff.mp hnil)
    · cases kept with
      | nil =>
          -- a slash is not where the query begins
          have := hquery '/' hhead
          simp at this
      | cons c kept => exact .inr hhead
  refine ⟨userinfo, host, kept, query, userMask,
    if kept.length < tail.length then "?***".toList else [], ?_⟩
  constructor
  · rw [hurl, hparts, hsplit, List.append_assoc]
  · rw [hmasked, hmask, List.append_assoc]
  · rw [hlast, urlHost, hauthority]
  · rw [urlPath, htail, hkept]
  · exact huser
  · intro c hc
    exact ⟨fun hsame => hslash'.2 (hsame ▸ hc), fun hsame => hhost (hsame ▸ hc)⟩
  · exact hslash'.1
  · exact hkeptHead
  · intro c hc
    simpa using hfree c hc
  · cases query with
    | nil =>
        rw [List.append_nil] at hsplit
        exact .inl ⟨rfl, if_neg (by rw [hsplit]; exact Nat.lt_irrefl _)⟩
    | cons c query =>
        refine .inr ⟨⟨c, rfl, ?_⟩, if_pos ?_⟩
        · have := hquery c rfl
          simpa [or_iff_not_imp_left] using this
        · rw [hsplit, List.length_append, List.length_cons]
          omega

theorem maskUrls_rewrites (before input : List Char) :
    Rewrites UrlSite before input (maskUrls input) := by
  refine maskUrls_rule (motive := fun input _ out =>
    ∀ before, Rewrites UrlSite before input out) (fun xs _ before => .done before xs) ?_ input before
  intro pre scheme url rest _ out hscheme _ _ _ hrest before
  obtain ⟨userinfo, host, kept, query, userMask, queryMask, h⟩ := exists_urlParts url
  have hends : "://".toList <:+ before ++ (pre ++ scheme) := by
    have hsuffix : "://".toList <:+ scheme := by
      rcases hscheme with rfl | rfl
      · exact ⟨"http".toList, rfl⟩
      · exact ⟨"https".toList, rfl⟩
    exact (hsuffix.trans (List.suffix_append pre _)).trans (List.suffix_append before _)
  -- behind the host, and behind the path
  have hquery : ∀ before, Rewrites UrlSite before (query ++ rest) (queryMask ++ out) := by
    intro before
    rcases h.isQuery with ⟨rfl, rfl⟩ | ⟨hhead, rfl⟩
    · exact hrest before
    · exact .here (.query rfl hhead) (hrest _)
  have hhost : ∀ before, Rewrites UrlSite before (host ++ (kept ++ (query ++ rest)))
      (host ++ (kept ++ (queryMask ++ out))) :=
    fun before => Rewrites.append_left (Rewrites.append_left (hquery _))
  rw [h.masked, h.split]
  simp only [List.append_assoc]
  refine Rewrites.append_left (Rewrites.append_left ?_)
  rcases h.isUser with ⟨rfl, rfl⟩ | ⟨-, rfl⟩
  · exact hhost _
  · refine .here (.userinfo rfl ?_) (hhost _)
    rwa [List.append_assoc]

/-- **What the masks leave or put in.** -/
theorem forall_mem_maskLine {p : Char → Prop} {input : List Char} (hinput : ∀ c ∈ input, p c)
    (hmask : ∀ c ∈ "<user>***@?***".toList, p c) : ∀ c ∈ maskLine input, p c := by
  have hhome : ∀ c ∈ maskHomePaths input, p c := by
    refine (maskHomePaths_rewrites [] input).forall_mem (fun _ _ _ mask hsite c hc => ?_) hinput
    rw [hsite.mask] at hc
    exact hmask c ((by decide : "<user>".toList ⊆ "<user>***@?***".toList) hc)
  have hurls : ∀ c ∈ maskUrls (maskHomePaths input), p c := by
    refine (maskUrls_rewrites [] _).forall_mem (fun _ _ _ mask hsite c hc => ?_) hhome
    rcases hsite with ⟨rfl, -⟩ | ⟨rfl, -⟩
    · exact hmask c ((by decide : "***@".toList ⊆ "<user>***@?***".toList) hc)
    · exact hmask c ((by decide : "?***".toList ⊆ "<user>***@?***".toList) hc)
  rw [maskLine, maskAssignments]
  generalize maskUrls (maskHomePaths input) = line at hurls
  generalize secretKeys = keys
  induction keys generalizing line with
  | nil => exact hurls
  | cons key keys ih =>
      refine ih _ ((maskAssignment_rewrites key [] line).forall_mem
        (fun _ _ _ mask hsite c hc => ?_) hurls)
      rw [hsite.mask] at hc
      exact hmask c ((by decide : "***".toList ⊆ "<user>***@?***".toList) hc)

end LyraUpgrade
