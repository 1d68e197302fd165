import LyraUpgrade.Interaction.Recorded
import LyraUpgrade.Service.Requests

/-!
# The preview of a release

The unprivileged service shows the release that is on offer.  It downloads and verifies the
signed manifest, and keeps it in a file of the user; where the download fails it verifies and
shows what the file holds, and where anything else fails it removes the file.  Any number of
previews share it, and other programs of the user may write it, too.

* `fetchReleasePreview`, `checkRelease` — the program.
* `cacheMachine` — the file, and who may change it.
* `Fetched`, `Recalled` — what an offer rests on.
* `wp_checkRelease` — a preview shows, keeps and removes only what it may.
-/

namespace LyraUpgrade

open Interaction

/-! ## Operations -/

/-- `PreviewCache`. -/
structure PreviewCache where
  schemaVersion : ℕ
  document : SignedDocument
  deriving DecidableEq

/-- The cache file. -/
inductive CacheFile
  | absent
  /-- Not a regular file, or not the text of a cache. -/
  | other
  | cache (cache : PreviewCache)
  deriving DecidableEq

/-- What a preview answers. -/
inductive PreviewResponse
  | rejected (requestId errorCode : String)
  | releaseOffer (requestId manifestSha256 : String) (manifest : ReleaseManifest) (cached : Bool)
  deriving DecidableEq

inductive PreviewOp
  /-- `ReadTrustState`, of the query broker. -/
  | trustState
  | readCache
  | saveCache (cache : PreviewCache)
  | removeCache
  /-- Write the document to files of its own, to be verified there. -/
  | copyDocument (document : SignedDocument)
  | reply (response : PreviewResponse)

@[reducible] def PreviewOp.Answer : PreviewOp → Type
  | trustState => Option (Option ℕ)
  | readCache => Except FetchError PreviewCache
  | saveCache _ => Except FetchError Unit
  | removeCache => Io Unit
  | copyDocument _ => Io Unit
  | reply _ => Unit

@[reducible] def CacheSig : Signature where
  Op := PreviewOp
  Res := PreviewOp.Answer

/-- What the host is asked, and what the cache file is used for. -/
abbrev PreviewSig : Signature := Sig.sum CacheSig

def askCache (e : PreviewOp) : Prog PreviewSig e.Answer := Prog.request (S := PreviewSig) (.inr e)

/-! ## The program -/

section

variable (ext : Externals)

/-- `fetch_release_preview`.  The error of `save_preview_cache` is dropped, and that of removing
the file. -/
def fetchReleasePreview (installed : ReleaseIdentity) (lastSequence : Option ℕ)
    (channel : ManifestChannelPolicy) :
    Prog PreviewSig (Except FetchError (ReleaseManifest × Bool)) := do
  match ← (fetchVerifiedManifest ext installed lastSequence channel).left with
  | .ok (manifest, document) =>
      let _ ← askCache (.saveCache ⟨1, document⟩)
      return .ok (manifest, false)
  | .error .download =>
      match ← askCache .readCache with
      | .error e => return .error e
      | .ok cached =>
          if cached.schemaVersion ≠ 1 then return .error .signature
          match ← askCache (.copyDocument cached.document) with
          | .error _ => return .error .io
          | .ok () =>
              match ← (verifyManifestFiles ext cached.document installed lastSequence
                channel).left with
              | .error e => return .error e
              | .ok manifest => return .ok (manifest, true)
  | .error e =>
      let _ ← askCache .removeCache
      return .error e

/-- `Service::check_release` of the read-only service, where there is a directory for the cache. -/
def checkRelease (requestId : String) : Prog PreviewSig Unit := do
  match ← (ask (.query .installedRelease)).left with
  | .error _ => askCache (.reply (.rejected requestId "DISCOVERY_FAILED"))
  | .ok installed =>
      match ← (ask (.query .releaseChannel)).left with
      | .error _ => askCache (.reply (.rejected requestId "RELEASE_CHANNEL_INVALID"))
      | .ok channel =>
          match ← askCache .trustState with
          | none => askCache (.reply (.rejected requestId "QUERY_UNAVAILABLE"))
          | some lastSequence =>
              match ← fetchReleasePreview ext installed lastSequence channel with
              | .error e => askCache (.reply (.rejected requestId (manifestErrorCode e)))
              | .ok (manifest, cached) =>
                  askCache (.reply (.releaseOffer requestId (manifest.sha256 ext.sha256) manifest
                    cached))

end

/-! ## The cache file -/

/-- `read_regular` and the JSON parser. -/
def CacheFile.read : CacheFile → Except FetchError PreviewCache
  | absent => .error .io
  | other => .error .json
  | cache c => .ok c

/-- How an operation on the cache file may be answered.  It is replaced atomically; the removal
of a file that is not there is an error. -/
def PreviewOp.exec : (e : PreviewOp) → CacheFile → e.Answer → CacheFile → Prop
  | trustState, w, _, w' | copyDocument _, w, _, w' | reply _, w, _, w' => w' = w
  | readCache, w, r, w' => w' = w ∧ (r = w.read ∨ ∃ e, r = .error e)
  | saveCache c, w, r, w' =>
      (r = .ok () ∧ w' = .cache c) ∨ ((∃ e, r = .error e) ∧ (w' = w ∨ w' = .cache c))
  | removeCache, w, r, w' => (r = .ok () ∧ w' = .absent) ∨ (r = .error ⟨⟩ ∧ w' = w)

/-- No error behind a signature or a repository key is a failed download: a key that cannot be
downloaded is an error of the key. -/
def validFetch : Event Sig → Prop
  | ⟨.query (.verifySignature _), answer⟩ => (answer : Except FetchError Unit) ≠ .error .download
  | ⟨.query (.repositoryKey _), answer⟩ => (answer : Except FetchError Unit) ≠ .error .download
  | _ => True

def validPreview : Event PreviewSig → Prop
  | ⟨.inl e, r⟩ => validFetch ⟨e, r⟩
  | _ => True

/-- An operation of a preview.  The host does not touch the file. -/
def CacheFile.exec : (e : PreviewSig.Op) → CacheFile → PreviewSig.Res e → CacheFile → Prop
  | .inl e, w, r, w' => w' = w ∧ validFetch ⟨e, r⟩
  | .inr e, w, r, w' => PreviewOp.exec e w r w'

/-- The file that previews share.  With `foreign` other programs may change it at any time. -/
def cacheMachine (foreign : Bool) : Machine PreviewSig CacheFile where
  exec := fun _ e w r w' => ∃ w₀, (foreign = false → w₀ = w) ∧ CacheFile.exec e w₀ r w'
  crash := fun w w' => foreign = false → w' = w

theorem validPreview_of_exec {foreign : Bool} {i : ℕ} {e : PreviewSig.Op} {w w' : CacheFile}
    {r : PreviewSig.Res e} (h : (cacheMachine foreign).exec i e w r w') : validPreview ⟨e, r⟩ := by
  obtain ⟨w₀, -, h⟩ := h
  cases e with
  | inl e => exact h.2
  | inr e => trivial

/-! ## What an offer rests on -/

/-- What a preview has heard. -/
abbrev Heard := List (Event PreviewSig)

section

variable (ext : Externals) (t : Heard) (manifest : ReleaseManifest)

/-- The document is signed, reads as the manifest, and offers it to the installed release, for the
channel, the replay record and the time that were found. -/
structure Offered (document : SignedDocument) : Prop where
  signed : ⟨.inl (.query (.verifySignature document)), Except.ok ()⟩ ∈ t
  parsed : ext.parseManifest document.document = some manifest
  route : ∃ installed channel last, ⟨.inl (.query .installedRelease), Except.ok installed⟩ ∈ t ∧
    ⟨.inl (.query .releaseChannel), Except.ok channel⟩ ∈ t ∧ ⟨.inr .trustState, some last⟩ ∈ t ∧
    validateManifestRoute ext.acceptsUrl manifest installed last updaterVersion channel = .ok ()
  time : ∃ now : ℤ, ⟨.inl (.query .utcNow), now⟩ ∈ t ∧ validateTimeAt ext manifest now = .ok ()

/-- It was downloaded, and so were the keys of its repositories. -/
structure Fetched (document : SignedDocument) : Prop extends Offered ext t manifest document where
  downloaded : ∃ channel, ⟨.inl (.query (.downloadManifest channel)), Except.ok document⟩ ∈ t
  keys : ∀ repository ∈ manifest.repositories,
    ⟨.inl (.query (.repositoryKey repository)), Except.ok ()⟩ ∈ t

/-- It is what the cache holds, and the download has failed. -/
structure Recalled (cache : PreviewCache) : Prop extends Offered ext t manifest cache.document where
  schema : cache.schemaVersion = 1
  read : ⟨.inr .readCache, Except.ok cache⟩ ∈ t
  unavailable : ∃ channel,
    ⟨.inl (.query (.downloadManifest channel)), Except.error .download⟩ ∈ t

end

/-- The download has ended in another way than by failing. -/
def Answered (t : Heard) : Prop :=
  ∃ channel answer, ⟨.inl (.query (.downloadManifest channel)), answer⟩ ∈ t ∧
    answer ≠ Except.error .download

/-- **What a preview may do.**  It keeps what it has fetched, and removes the file only after an
answer; it shows what it has fetched or recalled, and refuses an answer only after it has tried to
remove the file. -/
def previewAllows (ext : Externals) (t : Heard) : PreviewSig.Op → Prop
  | .inr (.saveCache cache) =>
      cache.schemaVersion = 1 ∧ ∃ manifest, Fetched ext t manifest cache.document
  | .inr .removeCache => Answered t
  | .inr (.reply (.releaseOffer _ sha256 manifest cached)) =>
      sha256 = manifest.sha256 ext.sha256 ∧
        if cached then ∃ cache, Recalled ext t manifest cache
        else ∃ document, Fetched ext t manifest document
  | .inr (.reply (.rejected _ _)) => Answered t → ∃ r, ⟨.inr .removeCache, r⟩ ∈ t
  | _ => True

abbrev previewContract (ext : Externals) : Contract PreviewSig Heard :=
  recording (previewAllows ext) validPreview

/-! ## The program keeps to it -/

section

variable {ext : Externals} {t t' t'' : Heard} {manifest : ReleaseManifest}
  {document : SignedDocument} {α : Type}

/-- More was heard, but of no download. -/
structure Adds (t t' : Heard) : Prop where
  subset : t ⊆ t'
  download : ∀ channel answer, ⟨.inl (.query (.downloadManifest channel)), answer⟩ ∈ t' →
    (⟨.inl (.query (.downloadManifest channel)), answer⟩ : Event PreviewSig) ∈ t

theorem Adds.refl (t : Heard) : Adds t t := ⟨fun _ h => h, fun _ _ h => h⟩

theorem Adds.trans (h : Adds t t') (h' : Adds t' t'') : Adds t t'' :=
  ⟨fun _ he => h'.subset (h.subset he), fun channel answer he =>
    h.download channel answer (h'.download channel answer he)⟩

/-- One more answer, to anything but a download. -/
theorem adds_snoc {e : PreviewSig.Op} {r : PreviewSig.Res e}
    (he : ∀ channel, e ≠ .inl (.query (.downloadManifest channel))) : Adds t (t ++ [⟨e, r⟩]) := by
  refine ⟨List.subset_append_left _ _, fun channel answer hmem => ?_⟩
  rcases List.mem_append.mp hmem with hmem | hmem
  · exact hmem
  · cases List.mem_singleton.mp hmem
    exact absurd rfl (he channel)

theorem Adds.answered (h : Adds t t') (hanswered : Answered t') : Answered t := by
  obtain ⟨channel, answer, hmem, hne⟩ := hanswered
  exact ⟨channel, answer, h.download channel answer hmem, hne⟩

theorem wp_hear {e : PreviewOp} {Q : e.Answer → Heard → Prop} (hallow : previewAllows ext t (.inr e))
    (h : ∀ r : e.Answer, Q r (t ++ [⟨.inr e, r⟩])) : (askCache e).wp (previewContract ext) Q t :=
  Automaton.wp_request hallow fun r _ => h r

theorem wp_ask_left {e : Op} {Q : e.Answer → Heard → Prop}
    (h : ∀ r : e.Answer, validFetch ⟨e, r⟩ → Q r (t ++ [⟨.inl e, r⟩])) :
    (ask e).wp (previewContract ext).left Q t := by
  refine ⟨trivial, ?_⟩
  rintro r _ ⟨hvalid, rfl⟩
  exact h r hvalid

theorem validateTimeAt_ne_download (ext : Externals) (manifest : ReleaseManifest) (now : ℤ) :
    validateTimeAt ext manifest now ≠ .error .download := by
  unfold validateTimeAt
  split
  · split_ifs <;> simp
  · simp

theorem wp_left_verifyManifestFiles (ext : Externals) (document : SignedDocument)
    (installed : ReleaseIdentity) (last : Option ℕ) (channel : ManifestChannelPolicy) (t : Heard) :
    (verifyManifestFiles ext document installed last channel).wp (previewContract ext).left
      (fun result t' => Adds t t' ∧ result ≠ .error .download ∧ ∀ manifest, result = .ok manifest →
        ⟨.inl (.query (.verifySignature document)), Except.ok ()⟩ ∈ t' ∧
        ext.parseManifest document.document = some manifest ∧
        validateManifestRoute ext.acceptsUrl manifest installed last updaterVersion channel = .ok () ∧
        ∃ now : ℤ, ⟨.inl (.query .utcNow), now⟩ ∈ t' ∧ validateTimeAt ext manifest now = .ok ())
      t := by
  unfold verifyManifestFiles
  rw [Prog.wp_bind]
  refine wp_ask_left fun signed hvalid => ?_
  have h₁ : Adds t (t ++ [⟨.inl (.query (.verifySignature document)), signed⟩]) :=
    adds_snoc fun channel h => by cases h
  rcases signed with e | ⟨⟩
  · exact ⟨h₁, fun h => hvalid (by cases h; rfl), fun _ h => by cases h⟩
  have hsigned : (⟨.inl (.query (.verifySignature document)), Except.ok ()⟩ : Event PreviewSig) ∈
      t ++ [⟨.inl (.query (.verifySignature document)), Except.ok ()⟩] :=
    List.mem_append_right _ (List.mem_singleton_self _)
  dsimp only
  cases hparse : ext.parseManifest document.document with
  | none => exact ⟨h₁, by simp, fun _ h => by cases h⟩
  | some manifest =>
      dsimp only
      rcases hroute : validateManifestRoute ext.acceptsUrl manifest installed last updaterVersion
        channel with e | ⟨⟩
      · exact ⟨h₁, by simp, fun _ h => by cases h⟩
      dsimp only
      unfold validateTime
      simp only [bind_assoc]
      rw [Prog.wp_bind]
      refine wp_ask_left fun now _ => ?_
      rw [pure_bind]
      have h₂ := h₁.trans (adds_snoc (e := .inl (.query .utcNow)) (r := now) fun channel h => by
        cases h)
      rcases htime : validateTimeAt ext manifest now with e | ⟨⟩
      · refine ⟨h₂, fun h => ?_, fun _ h => by cases h⟩
        exact validateTimeAt_ne_download ext manifest now (htime.trans (by cases h; rfl))
      refine ⟨h₂, by simp, ?_⟩
      rintro _ ⟨⟩
      exact ⟨List.mem_append_left _ hsigned, rfl, hroute, now,
        List.mem_append_right _ (List.mem_singleton_self _), htime⟩

/-- **The keys**, one for each repository. -/
theorem wp_left_fetchRepositoryKeys (repositories : List RepositoryTransition) (t : Heard) :
    (fetchRepositoryKeys repositories).wp (previewContract ext).left
      (fun result t' => Adds t t' ∧ result ≠ .error .download ∧ (result = .ok () →
        ∀ repository ∈ repositories,
          ⟨.inl (.query (.repositoryKey repository)), Except.ok ()⟩ ∈ t')) t := by
  induction repositories generalizing t with
  | nil => exact ⟨.refl t, by simp, fun _ _ h => by cases h⟩
  | cons repository repositories ih =>
      unfold fetchRepositoryKeys
      rw [Prog.wp_bind]
      refine wp_ask_left fun key hvalid => ?_
      have h₁ : Adds t (t ++ [⟨.inl (.query (.repositoryKey repository)), key⟩]) :=
        adds_snoc fun channel h => by cases h
      rcases key with e | ⟨⟩
      · exact ⟨h₁, fun h => hvalid (by cases h; rfl), fun h => by cases h⟩
      refine Prog.wp_mono ?_ (ih _)
      rintro result t' ⟨h₂, hne, hkeys⟩
      refine ⟨h₁.trans h₂, hne, fun hok => List.forall_mem_cons.mpr ⟨?_, hkeys hok⟩⟩
      exact h₂.subset (List.mem_append_right _ (List.mem_singleton_self _))

/-- What was found out about the host before anything is fetched. -/
structure Identified (t : Heard) (installed : ReleaseIdentity) (last : Option ℕ)
    (channel : ManifestChannelPolicy) : Prop where
  installed : ⟨.inl (.query .installedRelease), Except.ok installed⟩ ∈ t
  channel : ⟨.inl (.query .releaseChannel), Except.ok channel⟩ ∈ t
  last : ⟨.inr .trustState, some last⟩ ∈ t

theorem Identified.mono {installed : ReleaseIdentity} {last : Option ℕ}
    {channel : ManifestChannelPolicy} (h : Identified t installed last channel) (hsub : t ⊆ t') :
    Identified t' installed last channel :=
  ⟨hsub h.installed, hsub h.channel, hsub h.last⟩

/-- **What is fetched** was downloaded and verified, with its keys.  A failed download is the only
error that leaves nothing answered. -/
theorem wp_left_fetchVerifiedManifest {installed : ReleaseIdentity} {last : Option ℕ}
    {channel : ManifestChannelPolicy} (hhost : Identified t installed last channel) :
    (fetchVerifiedManifest ext installed last channel).wp (previewContract ext).left
      (fun result t' => t ⊆ t' ∧ (∀ offer, result = .ok offer → Fetched ext t' offer.1 offer.2) ∧
        (result = .error .download →
          ⟨.inl (.query (.downloadManifest channel)), Except.error .download⟩ ∈ t' ∧
          (Answered t' → Answered t)) ∧
        ∀ e, result = .error e → e ≠ .download → Answered t') t := by
  unfold fetchVerifiedManifest
  rw [Prog.wp_bind]
  refine wp_ask_left fun answer _ => ?_
  have hsub : t ⊆ t ++ [⟨.inl (.query (.downloadManifest channel)), answer⟩] :=
    List.subset_append_left _ _
  have hlast : (⟨.inl (.query (.downloadManifest channel)), answer⟩ : Event PreviewSig) ∈
      t ++ [⟨.inl (.query (.downloadManifest channel)), answer⟩] :=
    List.mem_append_right _ (List.mem_singleton_self _)
  cases answer with
  | error e =>
      refine ⟨hsub, fun _ h => (by cases h), fun h => ?_, fun e' h hne => ?_⟩
      · cases h
        refine ⟨hlast, ?_⟩
        rintro ⟨channel', answer, hmem, hne⟩
        rcases List.mem_append.mp hmem with hmem | hmem
        · exact ⟨channel', answer, hmem, hne⟩
        · cases List.mem_singleton.mp hmem
          exact absurd rfl hne
      · cases h
        exact ⟨channel, _, hlast, fun h => hne (by cases h; rfl)⟩
  | ok document =>
      dsimp only
      have hanswered : ∀ {t' : Heard},
          t ++ [⟨.inl (.query (.downloadManifest channel)), .ok document⟩] ⊆ t' → Answered t' :=
        fun h => ⟨channel, _, h hlast, by simp⟩
      rw [Prog.wp_bind]
      refine Prog.wp_mono ?_ (wp_left_verifyManifestFiles ext document installed last channel _)
      rintro (e | manifest) t₁ ⟨h₁, hne, hverified⟩
      · refine ⟨fun _ h => h₁.subset (hsub h), fun _ h => (by cases h), fun h => ?_, fun _ _ _ =>
          hanswered h₁.subset⟩
        exact absurd (by cases h; rfl) hne
      obtain ⟨hsigned, hparse, hroute, now, hnow, htime⟩ := hverified manifest rfl
      dsimp only
      rw [Prog.wp_bind]
      refine Prog.wp_mono ?_ (wp_left_fetchRepositoryKeys manifest.repositories t₁)
      rintro (e | ⟨⟩) t₂ ⟨h₂, hne', hkeys⟩
      · refine ⟨fun _ h => h₂.subset (h₁.subset (hsub h)), fun _ h => (by cases h), fun h => ?_,
          fun _ _ _ => hanswered fun _ h => h₂.subset (h₁.subset h)⟩
        exact absurd (by cases h; rfl) hne'
      · have hsub₂ : t ⊆ t₂ := fun _ h => h₂.subset (h₁.subset (hsub h))
        obtain ⟨hinstalled, hchannel, hsequence⟩ := hhost.mono hsub₂
        refine ⟨hsub₂, ?_, fun h => (by cases h), fun _ h => (by cases h)⟩
        rintro _ ⟨⟩
        exact { signed := h₂.subset hsigned
                parsed := hparse
                route := ⟨installed, channel, last, hinstalled, hchannel, hsequence, hroute⟩
                time := ⟨now, h₂.subset hnow, htime⟩
                downloaded := ⟨channel, h₂.subset (h₁.subset hlast)⟩
                keys := hkeys rfl }

theorem Fetched.mono (h : Fetched ext t manifest document) (hsub : t ⊆ t') :
    Fetched ext t' manifest document := by
  obtain ⟨⟨hsigned, hparse, ⟨installed, channel, last, hinstalled, hchannel, hlast, hroute⟩, now,
    hnow, htime⟩, ⟨channel', hdownloaded⟩, hkeys⟩ := h
  exact { signed := hsub hsigned
          parsed := hparse
          route := ⟨installed, channel, last, hsub hinstalled, hsub hchannel, hsub hlast, hroute⟩
          time := ⟨now, hsub hnow, htime⟩
          downloaded := ⟨channel', hsub hdownloaded⟩
          keys := fun repository h => hsub (hkeys repository h) }

/-- What a preview has come to. -/
def Previewed (ext : Externals) (t : Heard) : Except FetchError (ReleaseManifest × Bool) → Prop
  | .ok (manifest, cached) =>
      if cached then ∃ cache, Recalled ext t manifest cache
      else ∃ document, Fetched ext t manifest document
  | .error _ => Answered t → ∃ r, ⟨.inr .removeCache, r⟩ ∈ t

/-- **A preview** returns what it has fetched, or recalled after a failed download; after any other
failure it has tried to remove the file. -/
theorem wp_fetchReleasePreview {installed : ReleaseIdentity} {last : Option ℕ}
    {channel : ManifestChannelPolicy} (hhost : Identified t installed last channel)
    (hfirst : ¬ Answered t) :
    (fetchReleasePreview ext installed last channel).wp (previewContract ext)
      (fun result t' => Previewed ext t' result) t := by
  unfold fetchReleasePreview
  rw [Prog.wp_bind, Prog.wp_left]
  refine Prog.wp_mono ?_ (wp_left_fetchVerifiedManifest hhost)
  rintro (e | ⟨manifest, document⟩) t₁ ⟨hsub, hfetched, hoffline, hanswered⟩
  · by_cases he : e = .download
    · subst he
      obtain ⟨hunavailable, hquiet⟩ := hoffline rfl
      have hunanswered : ¬ Answered t₁ := fun h => hfirst (hquiet h)
      dsimp only
      rw [Prog.wp_bind]
      refine wp_hear trivial fun found => ?_
      have h₂ : Adds t₁ (t₁ ++ [⟨.inr .readCache, found⟩]) := adds_snoc fun _ h => by cases h
      have hread : (⟨.inr .readCache, found⟩ : Event PreviewSig) ∈
          t₁ ++ [⟨.inr .readCache, found⟩] := List.mem_append_right _ (List.mem_singleton_self _)
      generalize t₁ ++ [⟨.inr .readCache, found⟩] = t₂ at h₂ hread
      cases found with
      | error e => exact fun h => absurd (h₂.answered h) hunanswered
      | ok cache =>
          dsimp only
          split_ifs with hschema
          · exact fun h => absurd (h₂.answered h) hunanswered
          rw [Prog.wp_bind]
          refine wp_hear trivial fun copied => ?_
          have h₃ := h₂.trans (adds_snoc (e := .inr (.copyDocument cache.document)) (r := copied)
            fun _ h => by cases h)
          have hread₃ : (⟨.inr .readCache, .ok cache⟩ : Event PreviewSig) ∈
              t₂ ++ [⟨.inr (.copyDocument cache.document), copied⟩] := List.mem_append_left _ hread
          generalize t₂ ++ [⟨.inr (.copyDocument cache.document), copied⟩] = t₃ at h₃ hread₃
          rcases copied with e | ⟨⟩
          · exact fun h => absurd (h₃.answered h) hunanswered
          dsimp only
          rw [Prog.wp_bind, Prog.wp_left]
          refine Prog.wp_mono ?_ (wp_left_verifyManifestFiles ext cache.document installed last
            channel t₃)
          rintro (e | manifest) t₄ ⟨h₄, -, hverified⟩
          · exact fun h => absurd ((h₃.trans h₄).answered h) hunanswered
          obtain ⟨hsigned, hparse, hroute, now, hnow, htime⟩ := hverified manifest rfl
          have hsub₄ : t₁ ⊆ t₄ := (h₃.trans h₄).subset
          obtain ⟨hinstalled, hchannel, hsequence⟩ := hhost.mono fun _ h => hsub₄ (hsub h)
          exact ⟨cache,
            { signed := hsigned
              parsed := hparse
              route := ⟨installed, channel, last, hinstalled, hchannel, hsequence, hroute⟩
              time := ⟨now, hnow, htime⟩
              schema := not_not.mp hschema
              read := h₄.subset hread₃
              unavailable := ⟨channel, hsub₄ hunavailable⟩ }⟩
    · have hremove : (askCache .removeCache >>= fun _ =>
          (pure (.error e) : Prog PreviewSig (Except FetchError (ReleaseManifest × Bool)))).wp
          (previewContract ext) (fun result t' => Previewed ext t' result) t₁ := by
        rw [Prog.wp_bind]
        refine wp_hear (hanswered e rfl he) fun r => ?_
        exact fun _ => ⟨r, List.mem_append_right _ (List.mem_singleton_self _)⟩
      cases e with
      | download => exact absurd rfl he
      | _ => exact hremove
  · have hoffer := hfetched _ rfl
    dsimp only
    rw [Prog.wp_bind]
    refine wp_hear ⟨rfl, manifest, hoffer⟩ fun r => ?_
    exact ⟨document, hoffer.mono (List.subset_append_left _ _)⟩

/-- **The program keeps to what a preview may do.** -/
theorem wp_checkRelease (ext : Externals) (requestId : String) :
    (checkRelease ext requestId).wp (previewContract ext) (fun _ _ => True) [] := by
  have hreject : ∀ {t : Heard} {code}, (Answered t → ∃ r, ⟨.inr .removeCache, r⟩ ∈ t) →
      (askCache (.reply (.rejected requestId code))).wp (previewContract ext) (fun _ _ => True) t :=
    fun h => wp_hear h fun _ => trivial
  unfold checkRelease
  rw [Prog.wp_bind, Prog.wp_left]
  refine wp_ask_left fun installed _ => ?_
  have h₁ := adds_snoc (t := []) (e := .inl (.query .installedRelease)) (r := installed)
    fun _ h => by cases h
  have hinstalled : (⟨.inl (.query .installedRelease), installed⟩ : Event PreviewSig) ∈
      [] ++ [⟨.inl (.query .installedRelease), installed⟩] := List.mem_singleton_self _
  generalize ([] : Heard) ++ [⟨.inl (.query .installedRelease), installed⟩] = t₁ at h₁ hinstalled ⊢
  have hquiet : ∀ {t : Heard}, Adds [] t → ¬ Answered t := by
    intro t h hanswered
    obtain ⟨_, _, hmem, -⟩ := h.answered hanswered
    cases hmem
  cases installed with
  | error e => exact hreject fun h => absurd h (hquiet h₁)
  | ok installed =>
      dsimp only
      rw [Prog.wp_bind, Prog.wp_left]
      refine wp_ask_left fun channel _ => ?_
      have h₂ := h₁.trans (adds_snoc (e := .inl (.query .releaseChannel)) (r := channel)
        fun _ h => by cases h)
      have hinstalled₂ : (⟨.inl (.query .installedRelease), .ok installed⟩ : Event PreviewSig) ∈
          t₁ ++ [⟨.inl (.query .releaseChannel), channel⟩] := List.mem_append_left _ hinstalled
      have hchannel : (⟨.inl (.query .releaseChannel), channel⟩ : Event PreviewSig) ∈
          t₁ ++ [⟨.inl (.query .releaseChannel), channel⟩] :=
        List.mem_append_right _ (List.mem_singleton_self _)
      generalize t₁ ++ [⟨.inl (.query .releaseChannel), channel⟩] = t₂
        at h₂ hinstalled₂ hchannel ⊢
      cases channel with
      | error e => exact hreject fun h => absurd h (hquiet h₂)
      | ok channel =>
          dsimp only
          rw [Prog.wp_bind]
          refine wp_hear trivial fun last => ?_
          have h₃ := h₂.trans (adds_snoc (e := .inr .trustState) (r := last) fun _ h => by cases h)
          cases last with
          | none => exact hreject fun h => absurd h (hquiet h₃)
          | some last =>
              dsimp only
              rw [Prog.wp_bind]
              have hhost : Identified (t₂ ++ [⟨.inr .trustState, some last⟩]) installed last
                  channel :=
                ⟨List.mem_append_left _ hinstalled₂, List.mem_append_left _ hchannel,
                  List.mem_append_right _ (List.mem_singleton_self _)⟩
              refine Prog.wp_mono ?_ (wp_fetchReleasePreview hhost (hquiet h₃))
              rintro (e | ⟨manifest, cached⟩) t₄ hpreviewed
              · exact hreject hpreviewed
              · exact wp_hear ⟨rfl, hpreviewed⟩ fun _ => trivial

end

end LyraUpgrade
