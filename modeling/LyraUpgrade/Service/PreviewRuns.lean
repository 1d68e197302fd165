import LyraUpgrade.Service.Preview
import LyraUpgrade.System.Simulation

/-!
# What previews show

Any number of previews run at once, are killed, and fail to read, write or remove the file they
share.  An offer from the cache was verified again by the preview that shows it; where nobody
else writes the file, it was also fetched by an earlier preview, and no removal has succeeded
in between.

* `CacheKept` — the file holds what was saved and not cleared since.
* `Shows` — what a response rests on.
* `previews_verified` — the result.
-/

namespace LyraUpgrade

open Interaction

/-- The steps of the previews; each was started for a request. -/
abbrev PreviewHistory := List (Label PreviewSig String)

/-- The step has removed or replaced what the file held. -/
def Clears (cache : PreviewCache) : Label PreviewSig String → Prop
  | .act _ (.inr .removeCache) (.ok ()) => True
  | .act _ (.inr (.saveCache cache')) (.ok ()) => cache' ≠ cache
  | _ => False

/-- The cache was saved, and not cleared since.  A save that reports an error may have replaced
the file as well. -/
def CacheKept (h : PreviewHistory) (cache : PreviewCache) : Prop :=
  ∃ before i r after, h = before ++ .act i (.inr (.saveCache cache)) r :: after ∧
    ∀ l ∈ after, ¬ Clears cache l

/-- A read has found a cache that was kept. -/
def FindsKept (h : PreviewHistory) : Label PreviewSig String → Prop
  | .act _ (.inr .readCache) (.ok cache) => CacheKept h cache
  | _ => True

section

variable {h : PreviewHistory} {cache : PreviewCache} {l : Label PreviewSig String}

theorem CacheKept.snoc (hkept : CacheKept h cache) (hl : ¬ Clears cache l) :
    CacheKept (h ++ [l]) cache := by
  obtain ⟨before, i, r, after, rfl, hafter⟩ := hkept
  refine ⟨before, i, r, after ++ [l], by rw [List.append_assoc, List.cons_append], ?_⟩
  intro l' hl'
  rcases List.mem_append.mp hl' with hl' | hl'
  · exact hafter l' hl'
  · rw [List.mem_singleton.mp hl']
    exact hl

theorem kept_save (h : PreviewHistory) (cache : PreviewCache) (i : ℕ)
    (r : Except FetchError Unit) :
    CacheKept (h ++ [.act i (.inr (.saveCache cache)) r]) cache :=
  ⟨h, i, r, [], rfl, fun l hl => by cases hl⟩

end

section

variable {ext : Externals} {c c' : Config PreviewSig String CacheFile Unit}
  {l : Label PreviewSig String}

/-- **One step**: what the file holds was kept, and so was what a read finds. -/
theorem kept_step (hw : ∀ cache, c.world = .cache cache → CacheKept c.history cache)
    (hs : Step (cacheMachine false) (checkRelease ext) c l c') :
    (∀ cache, c'.world = .cache cache → CacheKept (c.history ++ [l]) cache) ∧
      FindsKept c.history l := by
  have hsame : c'.world = c.world → (∀ cache, ¬ Clears cache l) →
      ∀ cache, c'.world = .cache cache → CacheKept (c.history ++ [l]) cache :=
    fun heq hl cache hcache => (hw cache (heq ▸ hcache)).snoc (hl cache)
  cases hs with
  | spawn => exact ⟨hsame rfl fun _ h => h, trivial⟩
  | crash hleft => exact ⟨hsame (hleft rfl) fun _ h => h, trivial⟩
  | @act i e k r w hrun hexec =>
      obtain ⟨w₀, hforeign, hexec⟩ := hexec
      obtain rfl := hforeign rfl
      rcases e with e | e
      · exact ⟨hsame hexec.1 fun _ h => h, trivial⟩
      · cases e with
        | trustState | copyDocument | reply => exact ⟨hsame hexec fun _ h => h, trivial⟩
        | readCache =>
            obtain ⟨rfl, hr⟩ := hexec
            refine ⟨hsame rfl fun _ h => h, ?_⟩
            cases r with
            | error e => trivial
            | ok cache =>
                -- the answer is what the file holds
                refine hw cache ?_
                rcases hr with hr | ⟨e, hr⟩
                · cases hfile : c.world with
                  | absent | other => rw [hfile] at hr; cases hr
                  | cache cache' => rw [hfile] at hr; cases hr; rfl
                · cases hr
        | saveCache cache =>
            refine ⟨?_, trivial⟩
            have hsaved : ∀ cache', CacheFile.cache cache = .cache cache' →
                CacheKept (c.history ++ [.act i (.inr (.saveCache cache)) r]) cache' := by
              rintro _ ⟨⟩
              exact kept_save ..
            rcases hexec with ⟨rfl, rfl⟩ | ⟨⟨e, rfl⟩, rfl | rfl⟩
            · exact hsaved
            · exact hsame rfl fun _ h => h
            · exact hsaved
        | removeCache =>
            refine ⟨?_, trivial⟩
            rcases hexec with ⟨rfl, rfl⟩ | ⟨rfl, rfl⟩
            · intro cache h
              cases h
            · exact hsame rfl fun _ h => h

end

/-! ## What a response rests on -/

section

variable (ext : Externals) (before : PreviewHistory) (i : ℕ) (manifest : ReleaseManifest)

/-- Preview `i` has read what an earlier one had fetched and saved, and nothing has cleared it in
between. -/
def FetchedBefore (cache : PreviewCache) : Prop :=
  ∃ first j r between last, before = first ++ .act j (.inr (.saveCache cache)) r :: between ++
      .act i (.inr .readCache) (.ok cache) :: last ∧
    Fetched ext (heard first j) manifest cache.document ∧ ∀ l ∈ between, ¬ Clears cache l

/-- What a response of preview `i` rests on. -/
def Shows (foreign : Bool) : PreviewResponse → Prop
  | .rejected _ _ => Answered (heard before i) → ∃ r, ⟨.inr .removeCache, r⟩ ∈ heard before i
  | .releaseOffer _ sha256 manifest cached =>
      sha256 = manifest.sha256 ext.sha256 ∧
        if cached then
          ∃ cache, Recalled ext (heard before i) manifest cache ∧
            (foreign = false → FetchedBefore ext before i manifest cache)
        else ∃ document, Fetched ext (heard before i) manifest document

end

/-- **Previews show only what is verified.**  In every run of any previews, with failures and
crashes, and whatever other programs write to the cache: an offer was verified by the preview that
shows it, and one that is not from the cache was downloaded by it with the keys of its
repositories; an answer is refused only after an attempt to remove the cache.  If nobody else
writes the cache, an offer from it was fetched by an earlier preview, and not cleared since. -/
theorem previews_verified (ext : Externals) {foreign : Bool} {w : CacheFile}
    (hw : foreign = false → ∀ cache, w ≠ .cache cache)
    {c : Config PreviewSig String CacheFile Unit}
    (h : Reach (cacheMachine foreign) (checkRelease ext) (fun _ _ => True) (Config.boot w) c)
    {before after : PreviewHistory} {i : ℕ} {response : PreviewResponse}
    (hc : c.history = before ++ .act i (.inr (.reply response)) () :: after) :
    Shows ext before i foreign response := by
  have hallowed : Throughout (Permitted (previewAllows ext)) c.history :=
    h.allowed (wp_checkRelease ext) fun i e w r w' hexec => validPreview_of_exec hexec
  have hreply : previewAllows ext (heard before i) (.inr (.reply response)) :=
    hallowed _ _ _ hc
  cases response with
  | rejected => exact hreply
  | releaseOffer requestId sha256 manifest cached =>
      obtain ⟨hsha256, hoffer⟩ := hreply
      refine ⟨hsha256, ?_⟩
      cases cached with
      | false => exact hoffer
      | true =>
          obtain ⟨cache, hrecalled⟩ := hoffer
          refine ⟨cache, hrecalled, ?_⟩
          rintro rfl
          obtain ⟨read, last, hread⟩ := exists_of_mem_heard hrecalled.read
          -- what was read had been kept
          have hfinds : Throughout FindsKept c.history :=
            h.throughout_history (I := fun h w => ∀ cache, w = .cache cache → CacheKept h cache)
              (fun cache heq => absurd heq (hw rfl cache)) fun c l c' hc hs => kept_step hc hs
          have hkept : CacheKept read cache :=
            hfinds read (.act i (.inr .readCache) (.ok cache)) (last ++ .act i (.inr (.reply
              (.releaseOffer requestId sha256 manifest true))) () :: after)
              (by rw [hc, hread, List.append_assoc, List.cons_append])
          obtain ⟨first, j, r, between, rfl, hbetween⟩ := hkept
          refine ⟨first, j, r, between, last, hread, ?_, hbetween⟩
          -- whoever saved it had fetched it
          have hsave : previewAllows ext (heard first j) (.inr (.saveCache cache)) :=
            hallowed first (.act j (.inr (.saveCache cache)) r) (between ++
              .act i (.inr .readCache) (.ok cache) :: (last ++ .act i (.inr (.reply
                (.releaseOffer requestId sha256 manifest true))) () :: after))
              (by rw [hc, hread]; simp only [List.append_assoc, List.cons_append])
          obtain ⟨-, manifest', hfetched⟩ := hsave
          obtain rfl : manifest = manifest' :=
            Option.some.inj (hrecalled.parsed.symm.trans hfetched.parsed)
          exact hfetched

namespace Sample

/-- A parser and a clock that accept the manifest. -/
def previewExternals : Externals where
  sha256 := fun _ => manifestSha256
  acceptsUrl := fun _ => true
  parseManifest := fun _ => some manifest
  parseTime := fun text => some (if text = manifest.validFrom then 0 else 1)

/-- The host of the preview with the number `i`: the second one is offline. -/
def previewOracle (i : ℕ) : Oracle :=
  { oracle with
    query := fun q =>
      match q with
      | .installedRelease => .ok source
      | .downloadManifest _ => if i = 0 then .ok ⟨[], []⟩ else .error .download
      | q => oracle.query q }

/-- The file when nothing fails. -/
def previewFile : (e : PreviewOp) → CacheFile → e.Answer × CacheFile
  | .trustState, w => (some (some 3), w)
  | .readCache, w => (w.read, w)
  | .saveCache cache, _ => (.ok (), .cache cache)
  | .removeCache, _ => (.ok (), .absent)
  | .copyDocument _, w => (.ok (), w)
  | .reply _, w => ((), w)

def previewAnswer (i : ℕ) :
    (e : PreviewSig.Op) → CacheFile → PreviewSig.Res e × CacheFile
  | .inl e, w => ((World.reply (previewOracle i) i e world).1, w)
  | .inr e, w => previewFile e w

theorem validFetch_previewOracle (i : ℕ) (e : Op) :
    validFetch ⟨e, (World.reply (previewOracle i) i e world).1⟩ := by
  cases e with
  | query q => cases q <;> first | trivial | (intro h; cases h)
  | _ => trivial

def previewStrategy : Strategy (cacheMachine false) where
  answer := previewAnswer
  sound := by
    intro i e w
    refine ⟨w, fun _ => rfl, ?_⟩
    cases e with
    | inl e => exact ⟨rfl, validFetch_previewOracle i e⟩
    | inr e =>
        cases e with
        | trustState | copyDocument | reply => rfl
        | readCache => exact ⟨rfl, .inl rfl⟩
        | saveCache | removeCache => exact .inl ⟨rfl, rfl⟩
  crash := fun w => w
  crash_sound := fun _ _ => rfl

/-- The first preview keeps what it has fetched, and the second is about to show it. -/
def previewing : Config PreviewSig String CacheFile Unit :=
  previewStrategy.plays (checkRelease previewExternals) (Config.boot .absent)
    ([.spawn "first", .spawn "second"] ++ List.replicate 9 (.act 0) ++
      List.replicate 8 (.act 1))

def cachedOffer : PreviewResponse := .releaseOffer "second" manifestSha256 manifest true

/-- The step of the second preview. -/
def showsCached : Label PreviewSig String → Bool
  | .act i (.inr (.reply response)) _ => i = 1 && response = cachedOffer
  | _ => false

/-- The offer is shown. -/
def shown : Config PreviewSig String CacheFile Unit :=
  previewStrategy.play (checkRelease previewExternals) previewing (.act 1)

theorem reach_shown : Reach (cacheMachine false) (checkRelease previewExternals) (fun _ _ => True)
    (Config.boot .absent) shown :=
  (previewStrategy.reach_if _ (I := fun _ => True) trivial fun _ _ _ _ =>
      ⟨trivial, fun _ _ => trivial⟩).trans
    (previewStrategy.reach_play _ previewing (.act 1) fun _ _ => trivial)

theorem shown_history :
    shown.history = previewing.history ++ .act 1 (.inr (.reply cachedOffer)) () :: [] := by
  have hlabel : (previewStrategy.label previewing (.act 1)).any showsCached := by
    decide +kernel
  obtain ⟨l, hl, hshows⟩ := (Option.any_eq_true _ _).mp hlabel
  have hs := previewStrategy.step_play (checkRelease previewExternals) hl
  unfold showsCached at hshows
  split at hshows
  · simp only [Bool.and_eq_true, decide_eq_true_eq] at hshows
    obtain ⟨rfl, rfl⟩ := hshows
    exact hs.history_eq
  · cases hshows

end Sample

theorem previews_verified_sample :
    Shows Sample.previewExternals Sample.previewing.history 1 false Sample.cachedOffer :=
  previews_verified Sample.previewExternals (fun _ _ => CacheFile.noConfusion)
    Sample.reach_shown Sample.shown_history

end LyraUpgrade
