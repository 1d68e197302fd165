import LyraUpgrade.Core.Redaction

/-!
# URLs in technical lines

What `mask_urls` and the passes behind it leave of a URL.

`mask_url` takes the text up to the first `/` for the authority, and what it masks of the query
is behind that `/`; it looks at a URL once, and not at the URLs in its path; and the assignments
are masked without regard to URLs, so that a value in the host ends behind the path.  A URL of
which none of the three matters is a `PlainUrl`.

Where all URLs are plain, every URL of the line that comes out is redacted: what stands behind
its scheme has a shape (`Shaped`) that `mask_urls` makes, and that no assignment that is masked
destroys (`Shaped.rewrites`).  Where nothing was masked before and there is no assignment, the
URLs of a line are redacted only if they were plain.

`redaction_exact` is the result for all masks.
-/

namespace LyraUpgrade

open Encoding

/-! ## URLs -/

/-- No user information but `***`, and nothing but `***` behind the first `?` or `#`, in what
stands behind a scheme. -/
structure UrlRedacted (url : List Char) : Prop where
  userinfo : ∀ user host, url.takeWhile (fun c => !(c == '/' || c == '?' || c == '#')) =
    user ++ '@' :: host → user = "***".toList
  query : ∀ kept c query, url = kept ++ c :: query → c = '?' ∨ c = '#' →
    (∀ d ∈ kept, d ≠ '?' ∧ d ≠ '#') → query = "***".toList

/-- Every URL is redacted, also one in another. -/
def UrlsRedacted (cs : List Char) : Prop :=
  ∀ a scheme b, IsScheme scheme → cs = a ++ (scheme ++ b) →
    UrlRedacted (b.takeWhile (!isWhitespace ·))

/-- No secret key. -/
def KeyFree (cs : List Char) : Prop := ∀ key ∈ secretKeys, ¬ key.1 <:+: cs.map Char.toLower

/-- No user information, and no secret key in the host of a URL that has an `@` in its path. -/
def Calm (url : List Char) : Prop :=
  '@' ∉ url ∨ ('@' ∉ url.takeWhile (· ≠ '/') ∧ KeyFree (url.takeWhile (· ≠ '/')))

def schemes : List (List Char) := ["http://".toList, "https://".toList]

/-- A URL behind its scheme: no query without a path, and the URL and those in its path are
calm. -/
structure PlainUrl (url : List Char) : Prop where
  host : '?' ∉ urlHost url ∧ '#' ∉ urlHost url
  calm : Calm (urlHost url ++ urlPath url)
  nested : ∀ tail ∈ (urlHost url ++ urlPath url).tails, ∀ scheme ∈ schemes, scheme <+: tail →
    Calm (tail.drop scheme.length)

instance : DecidablePred KeyFree :=
  fun _ => inferInstanceAs (Decidable (∀ _ ∈ secretKeys, _))

instance : DecidablePred Calm := fun _ => inferInstanceAs (Decidable (_ ∨ _))

instance : DecidablePred PlainUrl := fun url =>
  decidable_of_iff (('?' ∉ urlHost url ∧ '#' ∉ urlHost url) ∧ Calm (urlHost url ++ urlPath url) ∧
    ∀ tail ∈ (urlHost url ++ urlPath url).tails, ∀ scheme ∈ schemes, scheme <+: tail →
      Calm (tail.drop scheme.length))
    ⟨fun h => ⟨h.1, h.2.1, h.2.2⟩, fun h => ⟨h.host, h.calm, h.nested⟩⟩

/-- The URLs of a line are plain, as `mask_urls` gets the line. -/
def PlainUrls (input : String) : Prop :=
  ∀ visible ∈ stripTerminalControls (utf8 input.toList),
    ∀ url ∈ urlsOf (maskHomePaths visible), PlainUrl url

instance : DecidablePred PlainUrls := fun _ => inferInstanceAs (Decidable (∀ _ ∈ _, _))

theorem mem_schemes {scheme : List Char} : scheme ∈ schemes ↔ IsScheme scheme := by
  simp [schemes, IsScheme]

section

variable {cs x y z w q out before old rest kept user url : List Char} {key : SecretKey}
  {p : Char → Prop}

theorem PlainUrl.calm_of_split {a scheme b : List Char} (h : PlainUrl url)
    (hscheme : IsScheme scheme) (hsplit : urlHost url ++ urlPath url = a ++ (scheme ++ b)) :
    Calm b := by
  have hcalm := h.nested (scheme ++ b) ((List.mem_tails _ _).mpr ⟨a, hsplit.symm⟩) scheme
    (mem_schemes.mpr hscheme) (List.prefix_append ..)
  rwa [List.drop_left] at hcalm

/-! ## What stands in a path -/

/-- Neither the end of a URL nor the beginning of its query. -/
def IsPathChar (c : Char) : Prop := c ≠ '?' ∧ c ≠ '#' ∧ isWhitespace c = false

/-- Characters with a property up to the end of the URL, or to `?***` and the end. -/
inductive PathTail (p : Char → Prop) : List Char → Prop
  | stop {w : List Char} (h : StopsAt (fun c => isWhitespace c) w) : PathTail p w
  | query {w : List Char} (h : StopsAt (fun c => isWhitespace c) w) :
      PathTail p ("?***".toList ++ w)
  | cons {c : Char} {rest : List Char} (hc : p c) (h : PathTail p rest) : PathTail p (c :: rest)

namespace PathTail

theorem append (hz : ∀ c ∈ z, p c) (h : PathTail p x) : PathTail p (z ++ x) := by
  induction z with
  | nil => exact h
  | cons c z ih =>
      rw [List.forall_mem_cons] at hz
      exact .cons hz.1 (ih hz.2)

/-- Where a piece ends: behind the end of the URL, in its path, or in `?***`. -/
theorem of_append (h : PathTail p (kept ++ x)) :
    (∀ y, PathTail p (kept ++ y)) ∨ (PathTail p x ∧ ∀ y, PathTail p y → PathTail p (kept ++ y)) ∨
      kept.getLast? = some '?' ∨ kept.getLast? = some '*' := by
  induction kept with
  | nil => exact .inr (.inl ⟨h, fun _ h => h⟩)
  | cons c kept ih =>
      generalize hwhole : c :: kept ++ x = whole at h
      cases h with
      | stop h =>
          subst hwhole
          exact .inl fun y => .stop h
      | @query w h =>
          rcases List.append_eq_append_iff.mp hwhole with ⟨d, hd, -⟩ | ⟨d, hd, hw⟩
          · -- in the mask
            have hinits : ∀ f ∈ "?***".toList.inits, f = [] ∨ f.getLast? = some '?' ∨
                f.getLast? = some '*' := by
              decide
            have hmem : c :: kept ∈ "?***".toList.inits := (List.mem_inits _ _).mpr ⟨d, hd.symm⟩
            rcases hinits _ hmem with hnil | hlast
            · cases hnil
            · exact .inr (.inr hlast)
          · cases d with
            | nil =>
                rw [hd]
                exact .inr (.inr (.inr rfl))
            | cons d ds =>
                refine .inl fun y => ?_
                rw [hd, List.append_assoc]
                subst hw
                exact .query h
      | cons hc h =>
          cases hwhole
          rcases ih h with hall | ⟨hx, hback⟩ | hlast
          · exact .inl fun y => .cons hc (hall y)
          · exact .inr (.inl ⟨hx, fun y hy => .cons hc (hback y hy)⟩)
          · have hsame : ∀ d, kept.getLast? = some d → (c :: kept).getLast? = some d := by
              intro d hd
              rw [List.getLast?_cons, hd]
              rfl
            exact .inr (.inr (hlast.imp (hsame _) (hsame _)))

/-- What stands behind a value. -/
theorem of_value (h : PathTail p (old ++ rest)) (hold : ∀ c ∈ old, endsValue c = false)
    (hrest : StopsAt (fun c => endsValue c) rest) : PathTail p rest := by
  -- white space ends a value, and nothing in `?***` does
  have hblank : ∀ c, isWhitespace c = true → endsValue c = true := by
    intro c hc
    rw [endsValue, hc]
    rfl
  have hmask : ∀ c ∈ "?***".toList, endsValue c = false := by decide
  induction old with
  | nil => exact h
  | cons c old ih =>
      rw [List.forall_mem_cons] at hold
      generalize hwhole : c :: old ++ rest = whole at h
      cases h with
      | stop h =>
          subst hwhole
          have := hblank c (h c rfl)
          rw [hold.1] at this
          cases this
      | @query w h =>
          rcases List.append_eq_append_iff.mp hwhole with ⟨d, hd, rfl⟩ | ⟨d, hd, rfl⟩
          · cases d with
            | nil => exact .stop h
            | cons d ds =>
                have hends : endsValue d = true := hrest d rfl
                rw [hmask d (by rw [hd]; simp)] at hends
                cases hends
          · cases d with
            | nil => exact .stop h
            | cons d ds =>
                have hends := hblank d (h d rfl)
                have hmem : d ∈ c :: old := by
                  rw [hd]
                  simp
                have hgoes : ∀ e ∈ c :: old, endsValue e = false := List.forall_mem_cons.mpr hold
                rw [hgoes d hmem] at hends
                cases hends
      | cons hc h =>
          cases hwhole
          exact ih h hold.2

/-- **An assignment that is masked leaves the end of a URL where it is.** -/
theorem rewrites (h : PathTail p x) (hkey : key ∈ secretKeys) (hp : p '*')
    (hrewrites : Rewrites (AssignmentSite key) before x out) : PathTail p out := by
  induction hrewrites with
  | done => exact h
  | @replace before kept old rest mask out hsite _ ih =>
      rcases h.of_append with hall | ⟨hx, hback⟩ | hlast
      · exact hall _
      · rw [hsite.mask]
        refine hback _ (.append ?_ (ih (hx.of_value hsite.old hsite.rest)))
        intro c hc
        have hstar : ∀ c ∈ "***".toList, c = '*' := by decide
        rwa [hstar c hc]
      · have hequals := hsite.getLast? hkey
        rcases hlast with hlast | hlast
        · rw [List.getLast?_append, hlast] at hequals
          cases hequals
        · rw [List.getLast?_append, hlast] at hequals
          cases hequals

/-- The parts of a path. -/
theorem split (h : PathTail p x) : ∃ z q w, x = z ++ (q ++ w) ∧ (∀ c ∈ z, p c) ∧
    (q = [] ∨ q = "?***".toList) ∧ StopsAt (fun c => isWhitespace c) w := by
  induction h with
  | @stop w h => exact ⟨[], [], w, rfl, by simp, .inl rfl, h⟩
  | @query w h => exact ⟨[], _, w, rfl, by simp, .inr rfl, h⟩
  | cons hc _ ih =>
      obtain ⟨z, q, w, rfl, hz, hq, hw⟩ := ih
      exact ⟨_ :: z, q, w, rfl, List.forall_mem_cons.mpr ⟨hc, hz⟩, hq, hw⟩

end PathTail

/-! ## What stands behind a scheme -/

/-- Calm, up to the end of a URL. -/
def CalmTail (x : List Char) : Prop :=
  PathTail (fun c => IsPathChar c ∧ c ≠ '@') x ∨
    ∃ host path, x = host ++ '/' :: path ∧ (∀ c ∈ host, IsPathChar c ∧ c ≠ '@') ∧ KeyFree host ∧
      PathTail IsPathChar path

/-- No user information but `***`, and a calm rest. -/
def Shaped (x : List Char) : Prop :=
  ∃ user y, x = user ++ y ∧ (user = [] ∨ user = "***@".toList) ∧ CalmTail y

theorem calmTail_of_calm (hcalm : Calm x) (hx : ∀ c ∈ x, IsPathChar c)
    (hq : q = [] ∨ q = "?***".toList) (hw : StopsAt (fun c => isWhitespace c) w) :
    CalmTail (x ++ (q ++ w)) := by
  have hend : ∀ p, PathTail p (q ++ w) := by
    intro p
    rcases hq with rfl | rfl
    · exact .stop hw
    · exact .query hw
  rcases hcalm with hnone | ⟨hnone, hfree⟩
  · refine .inl (.append (fun c hc => ⟨hx c hc, ?_⟩) (hend _))
    rintro rfl
    exact hnone hc
  · obtain ⟨host, path, rfl, htake, -, -, hstops⟩ := exists_span (fun c => decide (c ≠ '/')) x
    rw [htake] at hnone hfree
    have hhost : ∀ c ∈ host, IsPathChar c ∧ c ≠ '@' := by
      refine fun c hc => ⟨hx c (List.mem_append_left _ hc), ?_⟩
      rintro rfl
      exact hnone hc
    cases path with
    | nil =>
        rw [List.append_nil]
        exact .inl (.append hhost (hend _))
    | cons c path =>
        have hslash : c = '/' := by simpa using hstops c rfl
        subst hslash
        refine .inr ⟨host, path ++ (q ++ w), by simp, hhost, hfree, .append (fun c hc => ?_) (hend _)⟩
        exact hx c (by simp [hc])

/-- A key that ends behind a piece begins in it, if no character before the piece is in a key. -/
theorem infix_of_site {c : Char} (hkey : key ∈ secretKeys) (hlast : before.getLast? = some c)
    (hc : c = '/' ∨ c = '@') (h : AssignmentSite key (before ++ x) old rest w) :
    key.1 <:+: x.map Char.toLower := by
  obtain ⟨name, hname, hends⟩ := h.before
  rcases List.suffix_or_suffix_of_suffix hends (List.suffix_append before x) with hin | ⟨d, hd⟩
  · rw [← hname]
    exact (hin.map _).isInfix
  · have hnil : d = [] := by
      by_contra hne
      obtain ⟨e, he⟩ := List.getLast?_isSome.mpr hne |> Option.isSome_iff_exists.mp
      -- the last character before the piece would be in the key
      have hsuffix : d <:+ before := by
        rw [← hd] at hends
        obtain ⟨f, hf⟩ := hends
        rw [← List.append_assoc] at hf
        exact ⟨f, List.append_cancel_right hf⟩
      obtain ⟨f, rfl⟩ := hsuffix
      rw [List.getLast?_append, he] at hlast
      cases hlast
      have hmem : c ∈ name := by
        rw [← hd]
        exact List.mem_append_left _ (List.mem_of_getLast? he)
      have hnone : ∀ key ∈ secretKeys, '/' ∉ key.1 ∧ '@' ∉ key.1 := by decide
      have hlower : c.toLower ∈ key.1 := by
        rw [← hname]
        exact List.mem_map_of_mem hmem
      rcases hc with rfl | rfl
      · exact (hnone key hkey).1 hlower
      · exact (hnone key hkey).2 hlower
    subst hnil
    rw [List.nil_append] at hd
    subst hd
    rw [hname]

theorem CalmTail.rewrites {c : Char} (h : CalmTail x) (hkey : key ∈ secretKeys)
    (hlast : before.getLast? = some c) (hc : c = '/' ∨ c = '@')
    (hrewrites : Rewrites (AssignmentSite key) before x out) : CalmTail out := by
  rcases h with h | ⟨host, path, rfl, hhost, hfree, hpath⟩
  · exact .inl (h.rewrites hkey (by unfold IsPathChar; decide) hrewrites)
  · have hwhole : host ++ '/' :: path = (host ++ ['/']) ++ path := by simp
    rw [hwhole] at hrewrites
    obtain ⟨y, rfl, hy⟩ := hrewrites.follow fun f₁ f₂ hf hne old rest mask _ hsite => by
      have hoccurs := infix_of_site hkey hlast hc hsite
      -- the key would be in the host
      have hahead : f₁ <+: host := by
        obtain ⟨f₂, e, rfl⟩ := List.eq_nil_or_concat f₂ |>.resolve_left hne
        rw [List.concat_eq_append, ← List.append_assoc] at hf
        exact ⟨f₂, (List.append_inj' hf rfl).1.symm⟩
      exact hfree key hkey (hoccurs.trans (hahead.isInfix.map _))
    refine .inr ⟨host, y, by simp, hhost, hfree, ?_⟩
    exact hpath.rewrites hkey (by unfold IsPathChar; decide) hy

/-- **An assignment that is masked keeps the shape.** -/
theorem Shaped.rewrites (h : Shaped x) (hkey : key ∈ secretKeys)
    (hlast : before.getLast? = some '/')
    (hrewrites : Rewrites (AssignmentSite key) before x out) : Shaped out := by
  obtain ⟨user, y, rfl, huser, hy⟩ := h
  rcases huser with rfl | rfl
  · exact ⟨[], out, rfl, .inl rfl, hy.rewrites hkey hlast (.inl rfl) hrewrites⟩
  · obtain ⟨z, rfl, hz⟩ := hrewrites.follow fun f₁ f₂ hf hne old rest mask _ hsite => by
      have hoccurs := infix_of_site hkey hlast (.inl rfl) hsite
      have hnone : ∀ key ∈ secretKeys, ∀ f ∈ "***@".toList.inits,
          ¬ key.1 <:+: f.map Char.toLower := by
        decide
      exact hnone key hkey f₁ ((List.mem_inits _ _).mpr ⟨f₂, hf.symm⟩) hoccurs
    refine ⟨_, z, rfl, .inr rfl, hy.rewrites hkey (c := '@') ?_ (.inr rfl) hz⟩
    rw [List.getLast?_append]
    rfl

/-- What is taken in front of a character that ends it. -/
theorem mem_of_mem_takeWhile {f : Char → Bool} {c d : Char} (hd : f d = false)
    (h : c ∈ (x ++ d :: y).takeWhile f) : c ∈ x := by
  induction x with
  | nil =>
      rw [List.nil_append, List.takeWhile_cons_of_neg (by simp [hd])] at h
      cases h
  | cons e x ih =>
      rw [List.cons_append, List.takeWhile_cons] at h
      split_ifs at h
      · rcases List.mem_cons.mp h with rfl | h
        · exact List.mem_cons_self
        · exact List.mem_cons_of_mem _ (ih h)
      · cases h

/-- A URL is taken up to its end. -/
theorem takeWhile_url (hx : ∀ c ∈ x, isWhitespace c = false)
    (hw : StopsAt (fun c => isWhitespace c) w) : (x ++ w).takeWhile (!isWhitespace ·) = x := by
  have hend : w.takeWhile (!isWhitespace ·) = [] := by
    cases w with
    | nil => rfl
    | cons c w =>
        refine List.takeWhile_cons_of_neg ?_
        rw [hw c rfl]
        decide
  rw [List.takeWhile_append_of_pos, hend, List.append_nil]
  simpa using hx

/-- The parts of what has the shape: masked user information, a path with no `@` in front of its
first `/`, and a masked query. -/
structure UrlShape (user z q w : List Char) : Prop where
  user : user = [] ∨ user = "***@".toList
  path : ∀ c ∈ z, IsPathChar c
  query : q = [] ∨ q = "?***".toList
  stops : StopsAt (fun c => isWhitespace c) w
  host : '@' ∉ z ∨ ∃ host path, z = host ++ '/' :: path ∧ '@' ∉ host

theorem Shaped.parts (h : Shaped x) :
    ∃ user z q w, x = user ++ (z ++ (q ++ w)) ∧ UrlShape user z q w := by
  obtain ⟨user, y, rfl, huser, hy⟩ := h
  rcases hy with hy | ⟨host, path, rfl, hhost, -, hpath⟩
  · obtain ⟨z, q, w, rfl, hz, hq, hw⟩ := hy.split
    exact ⟨user, z, q, w, rfl, huser, fun c hc => (hz c hc).1, hq, hw,
      .inl fun hmem => (hz _ hmem).2 rfl⟩
  · obtain ⟨z, q, w, rfl, hz, hq, hw⟩ := hpath.split
    refine ⟨user, host ++ '/' :: z, q, w, by simp, huser, ?_, hq, hw,
      .inr ⟨host, z, rfl, fun hmem => (hhost _ hmem).2 rfl⟩⟩
    rw [List.forall_mem_append, List.forall_mem_cons]
    exact ⟨fun c hc => (hhost c hc).1, by unfold IsPathChar; decide, hz⟩

namespace UrlShape

theorem user_free (h : UrlShape user z q w) : ∀ c ∈ user, c ≠ '/' ∧ IsPathChar c := by
  rcases h.user with rfl | rfl <;> (unfold IsPathChar; decide)

theorem query_free (h : UrlShape user z q w) : ∀ c ∈ q, c ≠ '@' ∧ isWhitespace c = false := by
  rcases h.query with rfl | rfl <;> decide

theorem takeWhile_eq (h : UrlShape user z q w) :
    (user ++ (z ++ (q ++ w))).takeWhile (!isWhitespace ·) = user ++ (z ++ q) := by
  rw [← List.append_assoc z, ← List.append_assoc user]
  refine takeWhile_url ?_ h.stops
  simp only [List.forall_mem_append]
  exact ⟨fun c hc => (h.user_free c hc).2.2.2, fun c hc => (h.path c hc).2.2,
    fun c hc => (h.query_free c hc).2⟩

/-- No `@` but the masked one is in front of the first `/`. -/
theorem notMem_authority (h : UrlShape user z q w) :
    '@' ∉ (z ++ q).takeWhile (fun c => !(c == '/' || c == '?' || c == '#')) := by
  intro hmem
  rcases h.host with hat | ⟨host, path, rfl, hat⟩
  · rcases List.mem_append.mp (List.takeWhile_subset _ hmem) with hmem | hmem
    · exact hat hmem
    · exact (h.query_free _ hmem).1 rfl
  · rw [List.append_assoc, List.cons_append] at hmem
    exact hat (mem_of_mem_takeWhile (by decide) hmem)

theorem userinfo {name host : List Char} (h : UrlShape user z q w)
    (hauthority : (user ++ (z ++ q)).takeWhile (fun c => !(c == '/' || c == '?' || c == '#')) =
      name ++ '@' :: host) : name = "***".toList := by
  have hnone := h.notMem_authority
  rw [List.takeWhile_append_of_pos] at hauthority
  · rcases h.user with rfl | rfl
    · rw [List.nil_append] at hauthority
      rw [hauthority] at hnone
      exact absurd (by simp) hnone
    · rcases List.append_eq_append_iff.mp hauthority with ⟨d, rfl, hd⟩ | ⟨d, hd, hrest⟩
      · rw [hd] at hnone
        exact absurd (by simp) hnone
      · cases d with
        | nil =>
            rw [List.nil_append] at hrest
            rw [← hrest] at hnone
            exact absurd (by simp) hnone
        | cons e d =>
            cases (List.cons.inj hrest).1
            have hpieces : ∀ f ∈ "***@".toList.inits, f ++ ['@'] <+: "***@".toList →
                f = "***".toList := by
              decide
            refine hpieces name ((List.mem_inits _ _).mpr ⟨_, hd.symm⟩) ⟨d, ?_⟩
            rw [hd]
            simp
  · intro c hc
    obtain ⟨hslash, hquery, hfragment, -⟩ := h.user_free c hc
    simp [hslash, hquery, hfragment]

/-- The first `?` or `#` is the one that was put in. -/
theorem query_eq {c : Char} {query : List Char} (h : UrlShape user z q w)
    (hsplit : user ++ (z ++ q) = kept ++ c :: query) (hc : c = '?' ∨ c = '#')
    (hkept : ∀ d ∈ kept, d ≠ '?' ∧ d ≠ '#') : query = "***".toList := by
  have hnone : ∀ d ∈ user ++ z, d ≠ '?' ∧ d ≠ '#' := by
    rw [List.forall_mem_append]
    exact ⟨fun d hd => ⟨(h.user_free d hd).2.1, (h.user_free d hd).2.2.1⟩,
      fun d hd => ⟨(h.path d hd).1, (h.path d hd).2.1⟩⟩
  have hmask : q = c :: query → query = "***".toList := by
    intro hsame
    rcases h.query with rfl | rfl
    · cases hsame
    · exact (List.cons.inj hsame).2.symm
  rw [← List.append_assoc] at hsplit
  rcases List.append_eq_append_iff.mp hsplit with ⟨d, rfl, hd⟩ | ⟨d, hd, hrest⟩
  · cases d with
    | nil => exact hmask hd
    | cons e d =>
        have hfirst : e = '?' := by
          rcases h.query with rfl | rfl
          · cases hd
          · exact (List.cons.inj hd).1.symm
        exact absurd hfirst (hkept e (by simp)).1
  · cases d with
    | nil => exact hmask hrest.symm
    | cons e d =>
        cases (List.cons.inj hrest).1
        have := hnone c (by rw [hd]; simp)
        rcases hc with rfl | rfl
        · exact absurd rfl this.1
        · exact absurd rfl this.2

end UrlShape

/-- **What has the shape is redacted.** -/
theorem Shaped.redacted (h : Shaped x) : UrlRedacted (x.takeWhile (!isWhitespace ·)) := by
  obtain ⟨user, z, q, w, rfl, hshape⟩ := h.parts
  rw [hshape.takeWhile_eq]
  exact ⟨fun _ _ hauthority => hshape.userinfo hauthority,
    fun _ _ _ hsplit hc hkept => hshape.query_eq hsplit hc hkept⟩

/-! ## The URLs of a line -/

/-- Behind every scheme stands what has the shape. -/
def AllShaped (cs : List Char) : Prop :=
  ∀ a scheme b, IsScheme scheme → cs = a ++ (scheme ++ b) → Shaped b

theorem IsScheme.ne_nil {scheme : List Char} (h : IsScheme scheme) : scheme ≠ [] := by
  rcases h with rfl | rfl <;> decide

theorem IsScheme.free {scheme : List Char} (h : IsScheme scheme) :
    ∀ c ∈ scheme, c ≠ '?' ∧ isWhitespace c = false := by
  rcases h with rfl | rfl <;> decide

/-- **A later pass keeps the shape of every URL.** -/
theorem AllShaped.maskAssignment (h : AllShaped cs) (hkey : key ∈ secretKeys) :
    AllShaped (maskAssignment key cs) := by
  intro a scheme b hscheme hsplit
  have hdisjoint : ∀ x ∈ "***".toList, x ∉ scheme := by
    rcases hscheme with rfl | rfl <;> decide
  obtain ⟨a', b', rfl, hb⟩ := (maskAssignment_rewrites key [] cs).occurrence hscheme.ne_nil
    (fun _ _ _ _ hsite => by rw [hsite.mask]; exact ⟨by decide, hdisjoint⟩) hsplit
  refine (h a' scheme b' hscheme rfl).rewrites hkey ?_ hb
  rw [List.nil_append, List.getLast?_append]
  rcases hscheme with rfl | rfl <;> rfl

/-- A URL in the host or path of another, or behind it. -/
theorem scheme_behind {v a scheme b : List Char} (hscheme : IsScheme scheme)
    (hq : q = [] ∨ q = "?***".toList) (hout : StopsAt (fun c => isWhitespace c) out)
    (hsplit : v ++ (q ++ out) = a ++ (scheme ++ b)) :
    (∃ b', v = a ++ (scheme ++ b') ∧ b = b' ++ (q ++ out)) ∨
      ∃ a', out = a' ++ (scheme ++ b) := by
  have hbehind : ∀ a', q ++ out = a' ++ (scheme ++ b) → ∃ a'', out = a'' ++ (scheme ++ b) := by
    intro a' ha'
    rcases hq with rfl | rfl
    · exact ⟨a', ha'⟩
    · have hnone : ∀ c ∈ "?***".toList.tails, c ≠ [] → ¬ c <+: scheme ∧ ¬ scheme <+: c := by
        rcases hscheme with rfl | rfl <;> decide
      obtain ⟨a'', -, hout⟩ := begins_after hnone ha'
      exact ⟨a'', hout⟩
  rcases List.append_eq_append_iff.mp hsplit with ⟨d, rfl, hd⟩ | ⟨d, rfl, hd⟩
  · exact .inr (hbehind d hd)
  · rcases List.append_eq_append_iff.mp hd with ⟨e, rfl, he⟩ | ⟨e, rfl, he⟩
    · exact .inl ⟨e, rfl, he⟩
    · cases e with
      | nil =>
          rw [List.append_nil] at *
          exact .inl ⟨[], by simp, by simpa using he.symm⟩
      | cons c e =>
          -- a scheme has no white space and no question mark
          have hc : c ≠ '?' ∧ isWhitespace c = false := hscheme.free c (by simp)
          rcases hq with rfl | rfl
          · rw [List.nil_append] at he
            have hblank : isWhitespace c = true := hout c (by rw [he]; rfl)
            rw [hc.2] at hblank
            cases hblank
          · exact absurd (List.cons.inj he).1.symm hc.1

/-- Two schemes at one place are one. -/
theorem IsScheme.eq {scheme scheme' : List Char} (h : IsScheme scheme) (h' : IsScheme scheme')
    (hsame : scheme ++ x = scheme' ++ y) : scheme = scheme' ∧ x = y := by
  rcases h with rfl | rfl <;> rcases h' with rfl | rfl
  · exact ⟨rfl, List.append_cancel_left hsame⟩
  · simp at hsame
  · simp at hsame
  · exact ⟨rfl, List.append_cancel_left hsame⟩

/-- The URL that stands where a scheme does, if one was masked at a first place. -/
theorem scheme_at {pre scheme masked tail a s b : List Char} (hscheme : IsScheme scheme)
    (hs : IsScheme s)
    (hfirst : ∀ b s c, pre ++ (scheme ++ tail) = b ++ (s ++ c) → IsScheme s →
      pre.length ≤ b.length)
    (hsplit : pre ++ (scheme ++ masked) = a ++ (s ++ b)) :
    b = masked ∨ ∃ a', masked = a' ++ (s ++ b) := by
  have hlength : 7 ≤ scheme.length ∧ s.length ≤ 8 := by
    constructor
    · rcases hscheme with rfl | rfl <;> decide
    · rcases hs with rfl | rfl <;> decide
  have hbehind : pre.length ≤ a.length := by
    by_contra hless
    have hshort : a.length + s.length ≤ (pre ++ scheme).length := by
      rw [List.length_append]
      omega
    rw [← List.append_assoc] at hsplit
    obtain ⟨c, hc⟩ := split_of_length_le hsplit hshort tail
    rw [List.append_assoc] at hc
    exact hless (hfirst a s c hc hs)
  obtain ⟨a', rfl, hrest⟩ := split_behind hsplit hbehind
  cases a' with
  | nil => exact .inl (hscheme.eq hs hrest).2.symm
  | cons c a' =>
      have hnone : ∀ c ∈ scheme.tail.tails, c ≠ [] → ¬ c <+: s ∧ ¬ s <+: c := by
        rcases hscheme with rfl | rfl <;> rcases hs with rfl | rfl <;> decide
      have hinside : scheme.tail ++ masked = a' ++ (s ++ b) := by
        obtain ⟨d, scheme, rfl⟩ := List.exists_cons_of_ne_nil hscheme.ne_nil
        exact (List.cons.inj hrest).2
      obtain ⟨a'', -, hmasked⟩ := begins_after hnone hinside
      exact .inr ⟨a'', hmasked⟩

/-- The path and host of a plain URL. -/
theorem PlainUrl.isPathChar {userinfo host query userMask queryMask : List Char}
    (h : PlainUrl url) (hparts : UrlParts url userinfo host kept query userMask queryMask)
    (hurl : ∀ c ∈ url, isWhitespace c = false) : ∀ c ∈ host ++ kept, IsPathChar c := by
  have hblank : ∀ c ∈ host ++ kept, isWhitespace c = false := by
    intro c hc
    refine hurl c ?_
    rw [hparts.split, ← List.append_assoc host]
    exact List.mem_append_right _ (List.mem_append_left _ hc)
  have hhost := h.host
  rw [← hparts.host_eq] at hhost
  intro c hc
  rcases List.mem_append.mp hc with hmem | hmem
  · exact ⟨fun hsame => hhost.1 (hsame ▸ hmem), fun hsame => hhost.2 (hsame ▸ hmem), hblank c hc⟩
  · exact ⟨(hparts.noQuery c hmem).1, (hparts.noQuery c hmem).2, hblank c hc⟩

/-- **`mask_urls` makes the shape**, where the URLs are plain. -/
theorem allShaped_maskUrls (input : List Char) (hplain : ∀ url ∈ urlsOf input, PlainUrl url) :
    AllShaped (maskUrls input) := by
  refine (maskUrls_rule (motive := fun input urls out => (∀ url ∈ urls, PlainUrl url) →
    AllShaped out ∧ out.head? = input.head?) ?_ ?_ input hplain).1
  · refine fun xs hnone _ => ⟨?_, rfl⟩
    rintro a scheme b hscheme rfl
    exact absurd ⟨a, b, by rw [List.append_assoc]⟩ (hnone scheme hscheme)
  · intro pre scheme url rest urls out hscheme hfirst hurl hstops hrest hplain
    rw [List.forall_mem_cons] at hplain
    obtain ⟨hall, hhead⟩ := hrest hplain.2
    have hout : StopsAt (fun c => isWhitespace c) out := by
      rwa [StopsAt, hhead]
    obtain ⟨userinfo, host, kept, query, userMask, queryMask, hparts⟩ := exists_urlParts url
    have hchars := hplain.1.isPathChar hparts hurl
    have hquery : queryMask = [] ∨ queryMask = "?***".toList :=
      hparts.isQuery.imp (·.2) (·.2)
    have huser : userMask = [] ∨ userMask = "***@".toList := hparts.isUser.imp (·.2) (·.2)
    have hv : host ++ kept = urlHost url ++ urlPath url := by
      rw [← hparts.host_eq, ← hparts.kept_eq]
    have hmasked : maskRest url ++ out = userMask ++ ((host ++ kept) ++ (queryMask ++ out)) := by
      rw [hparts.masked]
      simp
    refine ⟨fun a s b hs hsplit => ?_, ?_⟩
    · rcases scheme_at hscheme hs hfirst hsplit with rfl | ⟨a₁, ha₁⟩
      · -- the URL itself
        refine ⟨userMask, _, hmasked, huser, calmTail_of_calm ?_ hchars hquery hout⟩
        rw [hv]
        exact hplain.1.calm
      · have hbehind : ∃ a₂, (host ++ kept) ++ (queryMask ++ out) = a₂ ++ (s ++ b) := by
          rw [hmasked] at ha₁
          rcases huser with rfl | rfl
          · exact ⟨a₁, ha₁⟩
          · have hnone : ∀ c ∈ "***@".toList.tails, c ≠ [] → ¬ c <+: s ∧ ¬ s <+: c := by
              rcases hs with rfl | rfl <;> decide
            obtain ⟨a₂, -, ha₂⟩ := begins_after hnone ha₁
            exact ⟨a₂, ha₂⟩
        obtain ⟨a₂, ha₂⟩ := hbehind
        rcases scheme_behind hs hquery hout ha₂ with ⟨b', hb', rfl⟩ | ⟨a₃, ha₃⟩
        · -- a URL in its host or path
          have hcalm : Calm b' := hplain.1.calm_of_split hs (by rw [← hv, hb'])
          refine ⟨[], _, rfl, .inl rfl, calmTail_of_calm hcalm (fun c hc => hchars c ?_) hquery hout⟩
          rw [hb']
          simp [hc]
        · exact hall a₃ s b hs ha₃
    · obtain ⟨c, scheme, rfl⟩ := List.exists_cons_of_ne_nil hscheme.ne_nil
      cases pre <;> rfl

theorem urlsRedacted_maskLine (visible : List Char)
    (hplain : ∀ url ∈ urlsOf (maskHomePaths visible), PlainUrl url) :
    UrlsRedacted (maskLine visible) := by
  have hurls := allShaped_maskUrls _ hplain
  have hline : AllShaped (maskLine visible) := by
    rw [maskLine, maskAssignments]
    generalize maskUrls (maskHomePaths visible) = line at hurls
    exact List.foldlRecOn (motive := AllShaped) secretKeys
      (fun result key => maskAssignment key result) hurls fun _ h _ hkey => h.maskAssignment hkey
  exact fun a scheme b hscheme hsplit => (hline a scheme b hscheme hsplit).redacted

/-! ## The other direction -/

/-- Nothing was masked before, and there is no assignment, in the line as `mask_urls` gets it. -/
def NothingMasked (input : String) : Prop :=
  ∀ visible ∈ stripTerminalControls (utf8 input.toList),
    '*' ∉ maskHomePaths visible ∧ KeyFree (maskHomePaths visible)

theorem KeyFree.mono (h : KeyFree y) (hoccurs : x <:+: y) : KeyFree x :=
  fun key hkey hx => h key hkey (hx.trans (hoccurs.map _))

theorem KeyFree.maskUrls (h : KeyFree cs) : KeyFree (maskUrls cs) := by
  rintro key hkey ⟨a, b, hsplit⟩
  obtain ⟨ab, b', hout, hab, -⟩ := List.map_eq_append_iff.mp hsplit.symm
  obtain ⟨a', name, rfl, -, hname⟩ := List.map_eq_append_iff.mp hab
  have hname' : name ≠ [] := by
    rintro rfl
    exact absurd key.2 (by rw [← hname]; exact Nat.lt_irrefl 0)
  have hmask : ∀ c ∈ "***@?***".toList, c ∉ name := by
    intro c hc hmem
    have hnone : ∀ key ∈ secretKeys, ∀ c ∈ "***@?***".toList, c.toLower ∉ key.1 := by decide
    refine hnone key hkey c hc ?_
    rw [← hname]
    exact List.mem_map_of_mem hmem
  rw [List.append_assoc] at hout
  obtain ⟨a'', b'', rfl, -⟩ := (maskUrls_rewrites [] cs).occurrence hname' (by
    rintro _ _ _ _ (⟨rfl, -⟩ | ⟨rfl, -⟩)
    · exact ⟨by decide, fun c hc => hmask c ((by decide : "***@".toList ⊆ _) hc)⟩
    · exact ⟨by decide, fun c hc => hmask c ((by decide : "?***".toList ⊆ _) hc)⟩) hout
  refine h key hkey ?_
  rw [← hname]
  exact List.IsInfix.map _ ⟨a'', b'', by simp⟩

/-- Without a key nothing is masked for one. -/
theorem KeyFree.maskAssignments_eq (h : KeyFree cs) : maskAssignments cs = cs := by
  rw [maskAssignments]
  refine List.foldlRecOn (motive := fun out => out = cs) secretKeys
    (fun result key => maskAssignment key result) rfl ?_
  rintro _ rfl key hkey
  rw [maskAssignment.eq_def, find_eq_none.mpr (h key hkey)]

/-- Where a URL that is found stands in the end. -/
theorem exists_of_mem_urlsOf {url : List Char} (input : List Char) (h : url ∈ urlsOf input) :
    url <:+: input ∧ (∀ c ∈ url, isWhitespace c = false) ∧ ∃ a scheme rest, IsScheme scheme ∧
      StopsAt (fun c => isWhitespace c) rest ∧
      maskUrls input = a ++ (scheme ++ (maskRest url ++ rest)) := by
  refine (maskUrls_rule (motive := fun input urls out => (url ∈ urls → url <:+: input ∧
    (∀ c ∈ url, isWhitespace c = false) ∧ ∃ a scheme rest, IsScheme scheme ∧
      StopsAt (fun c => isWhitespace c) rest ∧ out = a ++ (scheme ++ (maskRest url ++ rest))) ∧
    out.head? = input.head?) ?_ ?_ input).1 h
  · exact fun xs _ => ⟨fun hmem => (List.not_mem_nil hmem).elim, rfl⟩
  · rintro pre scheme first rest urls out hscheme - hfirst hstops ⟨ih, hhead⟩
    refine ⟨fun hmem => ?_, ?_⟩
    · rcases List.mem_cons.mp hmem with rfl | hmem
      · refine ⟨⟨pre ++ scheme, rest, by simp⟩, hfirst, pre, scheme, out, hscheme, ?_, rfl⟩
        rwa [StopsAt, hhead]
      · obtain ⟨hoccurs, hblank, a, s, r, hs, hr, rfl⟩ := ih hmem
        refine ⟨hoccurs.trans ⟨pre ++ (scheme ++ first), [], by simp⟩, hblank,
          pre ++ (scheme ++ (maskRest first ++ a)), s, r, hs, hr, by simp⟩
    · obtain ⟨c, scheme, rfl⟩ := List.exists_cons_of_ne_nil hscheme.ne_nil
      cases pre <;> rfl

/-- **A URL that is redacted was plain**, if nothing was masked in it before and there is no key in
it. -/
theorem plainUrl_of_redacted {a scheme : List Char} (hstar : '*' ∉ url) (hfree : KeyFree url)
    (hurl : ∀ c ∈ url, isWhitespace c = false) (hw : StopsAt (fun c => isWhitespace c) w)
    (hscheme : IsScheme scheme) (h : UrlsRedacted (a ++ (scheme ++ (maskRest url ++ w)))) :
    PlainUrl url := by
  obtain ⟨userinfo, host, kept, query, userMask, queryMask, hparts⟩ := exists_urlParts url
  have hquery : queryMask = [] ∨ queryMask = "?***".toList := hparts.isQuery.imp (·.2) (·.2)
  have hoccurs : host ++ kept <:+: url := ⟨userinfo, query, by rw [hparts.split]; simp⟩
  have hmasked : maskRest url ++ w = userMask ++ ((host ++ kept) ++ (queryMask ++ w)) := by
    rw [hparts.masked]
    simp
  have hblank : ∀ c ∈ (host ++ kept) ++ queryMask, isWhitespace c = false := by
    rw [List.forall_mem_append]
    refine ⟨fun c hc => hurl c (hoccurs.subset hc), ?_⟩
    rcases hquery with rfl | rfl <;> decide
  have huser : ∀ c ∈ userMask, isWhitespace c = false ∧ c ≠ '?' ∧ c ≠ '#' := by
    rcases hparts.isUser with ⟨-, rfl⟩ | ⟨-, rfl⟩ <;> decide
  -- the URL itself
  have hself : UrlRedacted (userMask ++ ((host ++ kept) ++ queryMask)) := by
    have hred := h a scheme _ hscheme rfl
    rwa [hmasked, ← List.append_assoc (host ++ kept), ← List.append_assoc userMask,
      takeWhile_url ?_ hw] at hred
    rw [List.forall_mem_append]
    exact ⟨fun c hc => (huser c hc).1, hblank⟩
  have hnone : ∀ c ∈ host ++ kept, c ≠ '?' ∧ c ≠ '#' := by
    obtain ⟨front, rest, hsplit, -, -, hfront, hstops⟩ :=
      exists_span (fun c => !(c == '?' || c == '#')) (host ++ kept)
    have hfront' : ∀ c ∈ front, c ≠ '?' ∧ c ≠ '#' := by simpa using hfront
    cases rest with
    | nil =>
        rw [hsplit, List.append_nil]
        exact hfront'
    | cons c rest =>
        -- what is behind the first `?` is too long
        have hc : c = '?' ∨ c = '#' := by
          have := hstops c rfl
          simpa [or_iff_not_imp_left] using this
        have hafter := hself.query (userMask ++ front) c (rest ++ queryMask)
          (by rw [hsplit]; simp) hc (by
            rw [List.forall_mem_append]
            exact ⟨fun d hd => (huser d hd).2, hfront'⟩)
        cases rest with
        | nil =>
            rcases hquery with rfl | rfl
            · exact absurd hafter (by decide)
            · exact absurd hafter (by decide)
        | cons d rest =>
            have hd : d = '*' := (List.cons.inj hafter).1
            subst hd
            refine absurd (hoccurs.subset ?_) hstar
            rw [hsplit]
            simp
  have hkey : ∀ b, b <:+: host ++ kept → KeyFree (b.takeWhile (· ≠ '/')) :=
    fun b hb => hfree.mono ((List.takeWhile_prefix _).isInfix.trans (hb.trans hoccurs))
  constructor
  · rw [← hparts.host_eq]
    exact ⟨fun hmem => (hnone _ (List.mem_append_left _ hmem)).1 rfl,
      fun hmem => (hnone _ (List.mem_append_left _ hmem)).2 rfl⟩
  · rw [← hparts.host_eq, ← hparts.kept_eq]
    refine .inr ⟨fun hmem => ?_, hkey _ List.infix_rfl⟩
    have hhost : '@' ∈ host := by
      rcases hparts.isPath with ⟨rfl, -⟩ | hhead
      · rw [List.append_nil] at hmem
        exact List.takeWhile_subset _ hmem
      · obtain ⟨path, rfl⟩ := List.head?_eq_some_iff.mp hhead
        exact mem_of_mem_takeWhile (by decide) hmem
    exact (hparts.isHost _ hhost).2 rfl
  · intro tail htail s hs hahead
    obtain ⟨b, rfl⟩ := hahead
    rw [← hparts.host_eq, ← hparts.kept_eq, List.mem_tails] at htail
    obtain ⟨front, hsplit⟩ := htail
    rw [List.drop_left]
    have hb : b <:+: host ++ kept := ⟨front ++ s, [], by rw [← hsplit]; simp⟩
    refine .inr ⟨fun hmem => ?_, hkey b hb⟩
    -- the user information of a URL in the path
    have hred : UrlRedacted (b ++ queryMask) := by
      have hred := h (a ++ (scheme ++ (userMask ++ front))) s (b ++ (queryMask ++ w))
        (mem_schemes.mp hs) (by rw [hmasked, ← hsplit]; simp)
      rwa [← List.append_assoc b, takeWhile_url ?_ hw] at hred
      intro c hc
      refine hblank c ?_
      rcases List.mem_append.mp hc with hmem | hmem
      · exact List.mem_append_left _ (hb.subset hmem)
      · exact List.mem_append_right _ hmem
    obtain ⟨front', rest, rfl, htake, -, hfront, -⟩ := exists_span (fun c => decide (c ≠ '/')) b
    rw [htake] at hmem
    obtain ⟨name, more, rfl⟩ := List.append_of_mem hmem
    have hpass : ∀ c ∈ name ++ '@' :: more,
        (!(c == '/' || c == '?' || c == '#')) = true := by
      intro c hc
      have hslash : c ≠ '/' := by simpa using hfront c hc
      have hother := hnone c (hb.subset (List.mem_append_left _ hc))
      simp [hslash, hother.1, hother.2]
    have hname := hred.userinfo name (more ++ (rest ++ queryMask).takeWhile
      (fun c => !(c == '/' || c == '?' || c == '#'))) (by
        rw [List.append_assoc, List.takeWhile_append_of_pos hpass]
        simp)
    subst hname
    refine absurd (hoccurs.subset (hb.subset ?_)) hstar
    simp

end

/-! ## All masks -/

end LyraUpgrade
